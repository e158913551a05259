import Fdgw.RelaySessions
import Mathlib.Algebra.Group.Nat.Defs

/-!
Idle sessions. `SIGALRM` counts the seconds in `Epoch`, a relayed frame copies
`Epoch` into its session, and every `CleanPeriod` seconds the sessions that have
been quiet for more than `IdleTimeout` are ended.
-/
namespace Fdgw.Relay
open Pppoe Links Runs

/-! ## Seconds -/

def Event.isAlarm : Event → Bool
  | .alarm => true
  | _ => false

/-- The seconds that go by. -/
def alarms (es : List Event) : Nat := es.countP Event.isAlarm

theorem alarms_append (es fs : List Event) : alarms (es ++ fs) = alarms es + alarms fs :=
  List.countP_append

theorem alarms_cons (e : Event) (es : List Event) :
    alarms (e :: es) = alarms es + if e.isAlarm then 1 else 0 :=
  List.countP_cons

/-- The event is a frame from an end of the session or the PADS that opens it. -/
def Event.activity (f : Flow) : Event → Prop
  | .session _ g => ∃ role, (f.at role).matches g.packet.source g.packet.session
  | .discovery _ g => g.packet.code = codePads ∧ f.ac.matches g.packet.source g.packet.session
  | _ => False

/-- The last frame of the session was `later` ago. -/
def Flow.Since (past : List Event) (now : BitVec 32) (f : Flow) (seconds : Nat) : Prop :=
  ∃ before e later, past = before ++ e :: later ∧ e.activity f ∧ alarms later = seconds ∧
    now = f.epoch + BitVec.ofNat 32 seconds

/-- No session is older than the cleaner lets it get. -/
structure Timely (past : List Event) (n : Net) : Prop where
  slots : n.slots.Nodup
  counter : n.cleanCounter.toNat ≤ n.cleanPeriod.toNat
  early : n.pipe = 0 → n.cleanCounter.toNat < n.cleanPeriod.toNat
  recent : ∀ f ∈ n.active, ∃ seconds,
    f.Since past n.epoch seconds ∧ seconds ≤ n.idleTimeout.toNat + n.cleanCounter.toNat

section Timely

variable {past : List Event} {n n' : Net} {e : Event} {f : Flow} {clock : BitVec 32} {seconds : Nat}

/-- Nothing happened to the session. -/
theorem Flow.Since.other (since : f.Since past clock seconds) (quiet : e.isAlarm = false) :
    f.Since (past ++ [e]) clock seconds := by
  obtain ⟨before, e', later, rfl, active, rfl, now⟩ := since
  refine ⟨before, e', later ++ [e], by simp, active, ?_, now⟩
  rw [alarms_append, alarms, alarms, List.countP_singleton, quiet]
  rfl

theorem Flow.Since.tick (since : f.Since past clock seconds) :
    f.Since (past ++ [.alarm]) (clock + 1) (seconds + 1) := by
  obtain ⟨before, e', later, rfl, active, rfl, rfl⟩ := since
  refine ⟨before, e', later ++ [.alarm], by simp, active, alarms_append later [.alarm], ?_⟩
  rw [BitVec.add_assoc, BitVec.ofNat_add]
  rfl

theorem Flow.Since.start (active : e.activity f) (now : f.epoch = clock) : f.Since (past ++ [e]) clock 0 :=
  ⟨past, e, [], rfl, active, rfl, by simp [now]⟩

theorem Flow.Since.not_stale {idle : BitVec 32} (since : f.Since past clock seconds)
    (fits : seconds < 2 ^ 32) : f.stale clock idle = false ↔ seconds ≤ idle.toNat := by
  obtain ⟨-, -, -, -, -, -, rfl⟩ := since
  have age : f.epoch + BitVec.ofNat 32 seconds - f.epoch = BitVec.ofNat 32 seconds := by
    rw [BitVec.add_comm, BitVec.add_sub_cancel]
  rw [Flow.stale, age, decide_eq_false_iff_not, BitVec.lt_def, BitVec.toNat_ofNat, Nat.mod_eq_of_lt fits]
  exact Nat.not_lt

/-- One step of a relay that cleans as soon as it is told to. -/
theorem Timely.keep (timely : Timely past n) (prompt : e.isAlarm → n.pipe = 0)
    (timeout : n.idleTimeout ≠ 0) (fits : n.idleTimeout.toNat + n.cleanPeriod.toNat < 2 ^ 32)
    (positive : 0 < n.cleanPeriod.toNat) (changes : n.Changes e n') : Timely (past ++ [e]) n' := by
  have slots : n'.slots.Nodup := changes.slots.nodup_iff.mpr timely.slots
  have others (quiet : e.isAlarm = false) : ∀ f ∈ n.active, ∃ seconds,
      f.Since (past ++ [e]) n.epoch seconds ∧ seconds ≤ n.idleTimeout.toNat + n.cleanCounter.toNat := by
    intro f member
    obtain ⟨seconds, since, bound⟩ := timely.recent f member
    exact ⟨seconds, since.other quiet, bound⟩
  cases changes with
  | stay quiet =>
    refine ⟨slots, timely.counter, timely.early, others ?_⟩
    cases e with
    | alarm => exact absurd (quiet rfl) timeout
    | session | discovery | clean => rfl
  | drain none => exact absurd none timeout
  | @touch iface g flow role event found =>
    subst event
    refine ⟨slots, timely.counter, timely.early, fun f member => ?_⟩
    obtain ⟨f, before, rfl⟩ := List.mem_map.mp member
    obtain ⟨inside, hit⟩ := find_mem found
    by_cases same : f.slot = flow.slot
    · have equal : f = flow := List.inj_on_of_nodup_map timely.slots.of_append_left before inside same
      subst equal
      refine ⟨0, Flow.Since.start ⟨role, ?_⟩ ?_, Nat.zero_le _⟩
      · rw [Flow.touch_at]
        exact hit
      · simp [Flow.touch]
    · rw [Flow.touch, if_neg same]
      exact others rfl f before
  | close event =>
    subst event
    exact ⟨slots, timely.counter, timely.early, fun f member => others rfl f (List.mem_of_mem_erase member)⟩
  | create event pads =>
    subst event
    refine ⟨slots, timely.counter, timely.early, List.forall_mem_cons.mpr ⟨?_, others rfl⟩⟩
    exact ⟨0, Flow.Since.start ⟨pads, matches_iff.mpr ⟨rfl, rfl⟩⟩ rfl, Nat.zero_le _⟩
  | clean event =>
    subst event
    refine ⟨slots, Nat.zero_le _, fun _ => positive, fun f member => ?_⟩
    obtain ⟨inside, fresh⟩ := List.mem_filter.mp member
    obtain ⟨seconds, since, bound⟩ := timely.recent f inside
    have counter := timely.counter
    have young := (since.not_stale (by omega)).mp (Bool.not_eq_true' _ ▸ fresh)
    exact ⟨seconds, since.other rfl, young⟩
  | tick event =>
    subst event
    have before := timely.early (prompt rfl)
    have small : n.cleanCounter.toNat + 1 < 2 ^ 32 := by omega
    have counter : (n.cleanCounter + 1).toNat = n.cleanCounter.toNat + 1 := by
      rw [BitVec.toNat_add]
      exact Nat.mod_eq_of_lt small
    refine ⟨slots, ?_, ?_, fun f member => ?_⟩
    · change (n.cleanCounter + 1).toNat ≤ n.cleanPeriod.toNat
      omega
    · intro empty
      change (n.cleanCounter + 1).toNat < n.cleanPeriod.toNat
      change (if n.cleanCounter + 1 = n.cleanPeriod then n.pipe + 1 else n.pipe) = 0 at empty
      have notYet : n.cleanCounter + 1 ≠ n.cleanPeriod := by
        intro full
        rw [if_pos full] at empty
        omega
      have different : (n.cleanCounter + 1).toNat ≠ n.cleanPeriod.toNat :=
        fun same => notYet (BitVec.eq_of_toNat_eq same)
      omega
    · obtain ⟨seconds, since, bound⟩ := timely.recent f member
      refine ⟨seconds + 1, since.tick, ?_⟩
      change _ ≤ n.idleTimeout.toNat + (n.cleanCounter + 1).toNat
      omega

end Timely

/-! ## Runs -/

theorem cleanPeriod_pos (idleTimeout : BitVec 32) : 0 < (cleanPeriod idleTimeout).toNat := by
  unfold cleanPeriod
  split
  · decide
  · next large =>
    rw [BitVec.lt_def, Nat.not_lt] at large
    exact Nat.lt_of_lt_of_le (by decide) large

/-- The relay cleans before the next second when the pipe tells it to. -/
def prompt (s : State × List Sent) (e : Event) : Prop := e.isAlarm → s.1.pipe = 0

section Runs

variable {c : Config} {past es : List Event} {s u : State × List Sent}

/-- The sessions in the tables are timely. -/
def Tidy (c : Config) (past : List Event) (s : State × List Sent) : Prop :=
  ∃ n ps spare, Abstracts s.1 n ps spare ∧ Timely past n ∧ n.idleTimeout = c.idleTimeout ∧
    n.cleanPeriod = cleanPeriod c.idleTimeout

theorem run_tidy (timeout : c.idleTimeout ≠ 0)
    (fits : c.idleTimeout.toNat + (cleanPeriod c.idleTimeout).toNat < 2 ^ 32) (tidy : Tidy c past s)
    (good : Guarded step prompt s es) (ran : run step s es = some u) : Tidy c (past ++ es) u := by
  induction es generalizing s past with
  | nil =>
    cases ran
    simpa using tidy
  | cons e es ih =>
    obtain ⟨t, taken, rest⟩ := run_cons.mp ran
    obtain ⟨n, ps, spare, abs, timely, idle, period⟩ := tidy
    obtain ⟨⟨r, out⟩, handled, rfl⟩ := Option.map_eq_some_iff.mp taken
    obtain ⟨-, ps', spare', after⟩ := abs.handled handled
    have changes := handle_changes n e
    have next : Timely (past ++ [e]) (n.handle e).1 := by
      refine timely.keep (fun alarm => abs.pipe.trans (good.1 alarm)) ?_ ?_ ?_ changes
      · rw [idle]
        exact timeout
      · rw [idle, period]
        exact fits
      · rw [period]
        exact cleanPeriod_pos c.idleTimeout
    have later := ih ⟨_, ps', spare', after, next, changes.settings.1.trans idle,
      changes.settings.2.trans period⟩ (good.2 _ taken) rest
    simpa using later

/-- Each session in the tables had a frame within the idle timeout and one period of
the cleaner. -/
theorem idle_sessions_end {r : State} {sent : List Sent} (timeout : c.idleTimeout ≠ 0)
    (fits : c.idleTimeout.toNat + (cleanPeriod c.idleTimeout).toNat < 2 ^ 32)
    (good : Guarded step prompt (started c, []) es)
    (ran : run step (started c, []) es = some (r, sent)) :
    ∃ ps free spare, Represents r.table ps free spare ∧ ∀ p ∈ ps, ∃ before e later,
      es = before ++ e :: later ∧ e.activity p.flow ∧
      alarms later ≤ c.idleTimeout.toNat + (cleanPeriod c.idleTimeout).toNat := by
  have start : Tidy c [] (started c, []) := by
    refine ⟨_, _, _, started_abstracts c, ⟨?_, Nat.zero_le _, fun _ => ?_, by simp [Net.started]⟩, rfl, rfl⟩
    · exact List.nodup_range
    · exact cleanPeriod_pos c.idleTimeout
  obtain ⟨n, ps, spare, abs, timely, idle, period⟩ := run_tidy timeout fits start good ran
  refine ⟨ps, n.free, spare, abs.table, fun p member => ?_⟩
  have inside : p.flow ∈ n.active := by
    rw [abs.active]
    exact List.mem_map_of_mem member
  obtain ⟨seconds, ⟨before, e, later, split, active, rfl, -⟩, bound⟩ := timely.recent p.flow inside
  have counter := timely.counter
  rw [idle] at bound
  rw [period] at counter
  exact ⟨before, e, later, split, active, by omega⟩

/-- One second after the session was granted. -/
theorem idle_sessions_end_small :
    ∃ r sent, run step (started smallRelay, []) [.discovery 1 granted, .alarm] = some (r, sent) ∧
      ∃ ps free spare, Represents r.table ps free spare ∧ ∀ p ∈ ps, ∃ before e later,
        [.discovery 1 granted, .alarm] = before ++ e :: later ∧ e.activity p.flow ∧ alarms later ≤ 630 := by
  obtain ⟨r, -, -, ran, -⟩ := run_refines (started_abstracts smallRelay)
    (show ∀ e ∈ [Event.discovery 1 granted, .alarm], _ by decide) []
  refine ⟨r, _, ran, idle_sessions_end (c := smallRelay) (by decide) (by decide) ⟨nofun, ?_⟩ ran⟩
  intro t taken
  refine ⟨fun _ => ?_, fun _ _ => trivial⟩
  obtain ⟨⟨r', out⟩, handled, rfl⟩ := Option.map_eq_some_iff.mp taken
  obtain ⟨-, ps', spare', after⟩ := (started_abstracts smallRelay).handled handled
  exact after.pipe.symm.trans (by decide +kernel)

end Runs

/-! ## Sessions in use -/

/-- A PADT from the end with this address and number. -/
def Event.closes (k : Mac × SessionNumber) : Event → Prop
  | .discovery _ f => f.packet.code = codePadt ∧ (f.packet.source, f.packet.session) = k
  | _ => False

/-- There is a session between the two ends, and `ahead` more seconds will not end it. -/
def Held (x y : End) (ahead : Nat) (n : Net) : Prop :=
  ∃ flow ∈ n.active, ∃ role, flow.at role = x ∧ flow.at role.peer = y ∧
    (n.idleTimeout ≠ 0 → (n.epoch - flow.epoch).toNat + ahead ≤ n.idleTimeout.toNat)

section Held

variable {client : Mac → Prop} {nsess ahead : Nat} {n n' : Net} {e : Event} {x y : End}

theorem Held.keep (held : Held x y (alarms [e] + ahead) n)
    (upheld : ¬e.closes x.key ∧ ¬e.closes y.key) (changes : n.Changes e n') : Held x y ahead n' := by
  obtain ⟨flow, member, role, rfl, rfl, young⟩ := held
  have sooner (timeout : n.idleTimeout ≠ 0) :
      (n.epoch - flow.epoch).toNat + ahead ≤ n.idleTimeout.toNat := by
    have bound := young timeout
    omega
  cases changes with
  | stay | drain => exact ⟨flow, member, role, rfl, rfl, sooner⟩
  | @touch _ _ other _ _ _ =>
    refine ⟨_, List.mem_map_of_mem member, role, Flow.touch_at _, Flow.touch_at _, fun timeout => ?_⟩
    have bound := sooner timeout
    by_cases same : flow.slot = other.slot
    · have zero : (n.epoch - (flow.touch other.slot n.epoch).epoch).toNat = 0 := by
        simp [Flow.touch, same]
      change (n.epoch - (flow.touch other.slot n.epoch).epoch).toNat + ahead ≤ n.idleTimeout.toNat
      omega
    · rw [Flow.touch, if_neg same]
      exact bound
  | @close _ g other side event padt found =>
    subst event
    have different : flow ≠ other := by
      rintro rfl
      have hit := matches_iff.mp (find_mem found).2
      have key : (g.packet.source, g.packet.session) = (flow.at side).key := Prod.ext hit.1 hit.2
      rcases Role.eq_or_peer role side with rfl | rfl
      · exact upheld.1 ⟨padt, key⟩
      · exact upheld.2 ⟨padt, key⟩
    exact ⟨flow, (List.mem_erase_of_ne different).mpr member, role, rfl, rfl, sooner⟩
  | create => exact ⟨flow, List.mem_cons_of_mem _ member, role, rfl, rfl, sooner⟩
  | clean _ _ timeout =>
    refine ⟨flow, List.mem_filter.mpr ⟨member, ?_⟩, role, rfl, rfl, sooner⟩
    have bound := sooner timeout
    have fresh : ¬n.idleTimeout < n.epoch - flow.epoch := by
      rw [BitVec.lt_def]
      omega
    simp [Flow.stale, fresh]
  | tick event timeout =>
    subst event
    refine ⟨flow, member, role, rfl, rfl, fun _ => ?_⟩
    have bound := young timeout
    have one : alarms [Event.alarm] = 1 := rfl
    have next : (n.epoch + 1 - flow.epoch).toNat ≤ (n.epoch - flow.epoch).toNat + 1 := by
      bv_omega
    change (n.epoch + 1 - flow.epoch).toNat + ahead ≤ n.idleTimeout.toNat
    omega

end Held

section Busy

variable {c : Config} {client : Mac → Prop} {es later : List Event} {r r' : State} {sent : List Sent}
  {iface back : Nat} {f g : Frame} {s : Sent} {x y : End} {a u : State × List Sent}

end Busy

end Fdgw.Relay
