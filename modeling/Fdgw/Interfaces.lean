import Fdgw.TextLines
import Mathlib.Data.List.Count

/-! `conf/1.6/etc/rc.router`: the loop that configures the interfaces at boot.
The work list is what `ifconfig -l` reports, followed for each cloner by the
interfaces that files `/etc/ifconfig.*` are there for; the two are never
compared. Names are words of the shell; what the commands of a file do to
the shell or to `/etc` is not part of the model. -/
namespace Fdgw.Interfaces
open Patterns TextLines

/-! ## The boot environment -/

/-- A directory entry `/etc/ifconfig.name`, with its content if it is a regular file. -/
structure Entry where
  name : Text
  content : Option Text
  deriving DecidableEq

/-- What the script finds: the interfaces `ifconfig -l` reports, the cloners
`ifconfig -C` reports, and the entries in the order of the shell. -/
structure Boot where
  listed : List Text
  cloners : List Text
  entries : List Entry
  distinct : (entries.map Entry.name).Nodup

/-- `[ -f /etc/ifconfig.$if ]`, and what is in it. -/
def Boot.file (boot : Boot) (name : Text) : Option Text :=
  (boot.entries.find? fun entry => entry.name = name).bind Entry.content

/-! ## The work list -/

def path (name : Text) : Text := "/etc/ifconfig.".toList ++ name

/-- `${int##*.}` -/
def afterLastDot (text : Text) : Text := (text.reverse.takeWhile (· ≠ '.')).reverse

/-- The interface a matched file is taken for. -/
def Entry.interface (entry : Entry) : Text := afterLastDot (path entry.name)

/-- The entry matches `/etc/ifconfig.${cloner}[0-9]*`. -/
def Entry.globbed (cloner : Text) (entry : Entry) : Bool :=
  cloner.isPrefixOf entry.name && (entry.name.drop cloner.length).head?.any Char.isDigit

/-- A pattern that matches nothing stands for itself, and no such file exists. -/
def Boot.expand (boot : Boot) (cloner : Text) : List Entry :=
  match boot.entries.filter (Entry.globbed cloner) with
  | [] => [⟨cloner ++ "[0-9]*".toList, none⟩]
  | found => found

/-- `for int in …; do [ ! -f $int ] && break; if_tmp="$if_tmp ${int##*.}"; done` -/
def collect : List Entry → List Text → List Text
  | [], ifTmp => ifTmp
  | entry :: rest, ifTmp =>
    if entry.content = none then ifTmp else collect rest (ifTmp ++ [entry.interface])

/-- `$if_tmp` -/
def Boot.ifTmp (boot : Boot) : List Text :=
  boot.cloners.foldl (fun ifTmp cloner => collect (boot.expand cloner) ifTmp) boot.listed

/-! ## Reading a file -/

/-- What `read` makes of a character: a backslash keeps the next one from being a
separator, and a newline from ending the line. -/
inductive Cell where
  | newline
  | char (c : Char) (escaped : Bool)
  deriving DecidableEq

def cells : Text → List Cell
  | '\\' :: '\n' :: rest => cells rest
  | '\\' :: c :: rest => .char c true :: cells rest
  | ['\\'] => []
  | '\n' :: rest => .newline :: cells rest
  | c :: rest => .char c false :: cells rest
  | [] => []

def Cell.separates : Cell → Bool
  | .char c false => isBlank c
  | _ => false

def Cell.text : Cell → Option Char
  | .char c _ => some c
  | .newline => none

/-- The line without the blanks around it. -/
def trimmed (line : List Cell) : Text :=
  ((line.dropWhile Cell.separates).reverse.dropWhile Cell.separates).reverse.filterMap Cell.text

def pieces (content : Text) : List (List Cell) := (cells content).splitOn .newline

/-- What `read args` delivers until it fails at the end of the file. -/
def readArgs (content : Text) : List Text := (pieces content).dropLast.map trimmed

/-- What stands behind the last newline: `read` fails on it. -/
def unfinished (content : Text) : List Text := ((pieces content).getLast?.map trimmed).toList

inductive Command where
  | ifconfig (args : Text)
  | eval (command : Text)
  deriving DecidableEq

/-- The body of the `while` loop: blank lines, comments and `create` are passed over. -/
def command : Text → Option Command
  | [] => none
  | '#' :: _ => none
  | '!' :: rest => some (.eval rest)
  | args => if args = "create".toList then none else some (.ifconfig args)

/-! ## The loop -/

inductive Event where
  | create (name : Text)
  | resync
  | opened (name : Text)
  | ran (name : Text) (command : Command)
  deriving DecidableEq

def execute (name : Text) (trace : List Event) (args : Text) : List Event :=
  match command args with
  | some command => trace ++ [.ran name command]
  | none => trace

section

variable (boot : Boot) (created : List Event → Text → Bool) (ipfilter : Bool)

/-- The body of the `for` loop. Whether `ifconfig $if create` succeeds may depend
on all that was done before. -/
def configure (trace : List Event) (name : Text) : List Event :=
  match boot.file name with
  | some content =>
    let trace := trace ++ [.create name]
    let trace := if created trace name && ipfilter then trace ++ [.resync] else trace
    (readArgs content).foldl (execute name) (trace ++ [.opened name])
  | none => trace

def run : List Event := boot.ifTmp.foldl (configure boot created ipfilter) []

end

/-! ## What the loop is for -/

/-- The interface has a regular file and is there or can be cloned. -/
def Boot.Eligible (boot : Boot) (name : Text) : Prop :=
  (boot.file name).isSome = true ∧
    (name ∈ boot.listed ∨ ∃ cloner ∈ boot.cloners, ∃ digits, digits ≠ [] ∧
      digits.all Char.isDigit = true ∧ name = cloner ++ digits)

/-- All lines of the file, the last one with or without its newline. -/
def commands (content : Text) : List Command :=
  (readArgs content ++ unfinished content).filterMap command

/-- The event belongs to the file of the interface. -/
def Event.about (name : Text) : Event → Bool
  | .opened other => other = name
  | .ran other _ => other = name
  | _ => false

/-- Every eligible interface is configured once, line by line, and no other is. -/
structure ConfiguredOnce (boot : Boot) (trace : List Event) : Prop where
  once : ∀ name content, boot.Eligible name → boot.file name = some content →
    trace.filter (Event.about name) = .opened name :: (commands content).map (.ran name)
  others : ∀ name, ¬ boot.Eligible name → ∀ command, .ran name command ∉ trace

/-- The interfaces the files of a cloner are taken for, up to the first entry that
is not a regular file. -/
def Boot.named (boot : Boot) (cloner : Text) : List Text :=
  ((boot.entries.filter (Entry.globbed cloner)).takeWhile fun entry => entry.content ≠ none).map
    Entry.interface

/-- Every eligible interface is named once, nothing else is named that has lines
to run, and every file ends in a newline or in a line without a command. -/
structure Unambiguous (boot : Boot) : Prop where
  existing : ∀ name ∈ boot.listed, (boot.file name).isSome = true →
    boot.listed.count name = 1 ∧ ∀ cloner ∈ boot.cloners, name ∉ boot.named cloner
  cloned : ∀ name ∉ boot.listed, boot.Eligible name →
    (boot.cloners.flatMap boot.named).count name = 1
  others : ∀ cloner ∈ boot.cloners, ∀ name ∈ boot.named cloner, ¬ boot.Eligible name →
    ∀ content, boot.file name = some content → (readArgs content).filterMap command = []
  finished : ∀ name content, boot.Eligible name → boot.file name = some content →
    (unfinished content).filterMap command = []

/-! ## The work list in closed form -/

theorem collect_eq (entries : List Entry) (ifTmp : List Text) : collect entries ifTmp =
    ifTmp ++ (entries.takeWhile fun entry => entry.content ≠ none).map Entry.interface := by
  induction entries generalizing ifTmp with
  | nil => simp [collect]
  | cons entry entries ih =>
    rw [collect]
    split
    · rename_i missing
      rw [List.takeWhile_cons_of_neg (by simp [missing]), List.map_nil, List.append_nil]
    · rename_i regular
      rw [ih, List.takeWhile_cons_of_pos (by simp [regular]), List.map_cons, List.append_assoc]
      rfl

theorem collect_expand (boot : Boot) (cloner : Text) (ifTmp : List Text) :
    collect (boot.expand cloner) ifTmp = ifTmp ++ boot.named cloner := by
  unfold Boot.expand Boot.named
  split
  · rename_i none
    rw [none, collect_eq]
    rfl
  · exact collect_eq _ _

theorem ifTmp_eq (boot : Boot) : boot.ifTmp = boot.listed ++ boot.cloners.flatMap boot.named := by
  have general : ∀ (cloners ifTmp : List Text),
      cloners.foldl (fun ifTmp cloner => collect (boot.expand cloner) ifTmp) ifTmp =
        ifTmp ++ cloners.flatMap boot.named := by
    intro cloners
    induction cloners with
    | nil => simp
    | cons cloner cloners ih =>
      intro ifTmp
      rw [List.foldl_cons, ih, collect_expand, List.flatMap_cons, List.append_assoc]
  exact general boot.cloners boot.listed

/-! ## One interface in the trace -/

theorem foldl_execute (name : Text) (list : List Text) (trace : List Event) :
    list.foldl (execute name) trace = trace ++ (list.filterMap command).map (.ran name) := by
  induction list generalizing trace with
  | nil => simp
  | cons args list ih =>
    rw [List.foldl_cons, ih, execute]
    cases found : command args with
    | none => rw [List.filterMap_cons_none found]
    | some held => rw [List.filterMap_cons_some found, List.map_cons, List.append_assoc]; rfl

/-- What one pass over the file of an interface leaves in the trace. -/
def session (boot : Boot) (name : Text) : List Event :=
  match boot.file name with
  | some content => .opened name :: ((readArgs content).filterMap command).map (.ran name)
  | none => []

section

variable {boot : Boot} {created : List Event → Text → Bool} {ipfilter : Bool} {name other : Text}

theorem about_ran (list : List Command) : (list.map (Event.ran other)).filter (Event.about name) =
    if other = name then list.map (.ran other) else [] := by
  split
  · rename_i same
    apply List.filter_eq_self.mpr
    intro event member
    obtain ⟨command, -, rfl⟩ := List.mem_map.mp member
    simpa [Event.about] using same
  · rename_i differ
    apply List.filter_eq_nil_iff.mpr
    intro event member
    obtain ⟨command, -, rfl⟩ := List.mem_map.mp member
    simpa [Event.about] using differ

theorem about_configure (trace : List Event) :
    (configure boot created ipfilter trace other).filter (Event.about name) =
      trace.filter (Event.about name) ++ if other = name then session boot name else [] := by
  unfold configure
  cases held : boot.file other with
  | none =>
    by_cases same : other = name
    · subst same
      simp [session, held]
    · simp [same]
  | some content =>
    have silent : ∀ events : List Event, (if created events other && ipfilter then events ++ [.resync]
        else events).filter (Event.about name) = events.filter (Event.about name) := by
      intro events
      split
      · simp [Event.about]
      · rfl
    simp only [foldl_execute, List.filter_append, silent, about_ran]
    by_cases same : other = name
    · subst same
      simp [session, held, Event.about]
    · simp [Event.about, same]

theorem about_foldl (list : List Text) (trace : List Event) :
    (list.foldl (configure boot created ipfilter) trace).filter (Event.about name) =
      trace.filter (Event.about name) ++ (List.replicate (list.count name) (session boot name)).flatten := by
  induction list generalizing trace with
  | nil => simp
  | cons other list ih =>
    rw [List.foldl_cons, ih, about_configure, List.append_assoc]
    by_cases same : other = name
    · subst same
      rw [if_pos rfl, List.count_cons_self, List.replicate_succ, List.flatten_cons]
    · rw [if_neg same, List.count_cons_of_ne same, List.nil_append]

/-- The trace of an interface is one session for every time it is named. -/
theorem about_run : (run boot created ipfilter).filter (Event.about name) =
    (List.replicate (boot.ifTmp.count name) (session boot name)).flatten := by
  rw [run, about_foldl, List.filter_nil, List.nil_append]

theorem opened_count (list : List Command) : (list.map (Event.ran name)).count (.opened name) = 0 := by
  apply List.count_eq_zero.mpr
  intro member
  obtain ⟨command, -, shape⟩ := List.mem_map.mp member
  cases shape

theorem session_count (held : boot.file name = some content) :
    (session boot name).count (.opened name) = 1 := by
  simp [session, held, opened_count]

theorem sessions_complete_iff (held : boot.file name = some content) (n : Nat) :
    (List.replicate n (session boot name)).flatten = .opened name :: (commands content).map (.ran name) ↔
      n = 1 ∧ (unfinished content).filterMap command = [] := by
  constructor
  · intro same
    have once : n = 1 := by
      have counts := congrArg (List.count (.opened name)) same
      rw [List.count_flatten, List.map_replicate, session_count held, List.sum_replicate_nat,
        List.count_cons_self, opened_count] at counts
      simpa using counts
    subst once
    refine ⟨rfl, ?_⟩
    have lengths := congrArg List.length same
    simp only [List.replicate_one, List.flatten_singleton, session, held, List.length_cons,
      List.length_map, commands, List.filterMap_append, List.length_append] at lengths
    exact List.eq_nil_of_length_eq_zero (by omega)
  · rintro ⟨rfl, finished⟩
    simp [session, held, commands, List.filterMap_append, finished]

theorem ran_mem_iff {command : Command} : .ran name command ∈ run boot created ipfilter ↔
    name ∈ boot.ifTmp ∧ ∃ content, boot.file name = some content ∧
      command ∈ (readArgs content).filterMap Interfaces.command := by
  have among : .ran name command ∈ run boot created ipfilter ↔
      .ran name command ∈ (run boot created ipfilter).filter (Event.about name) := by
    simp [List.mem_filter, Event.about]
  rw [among, about_run, List.mem_flatten]
  simp only [List.mem_replicate, ne_eq, List.count_eq_zero, not_not]
  constructor
  · rintro ⟨_, ⟨named, rfl⟩, member⟩
    refine ⟨named, ?_⟩
    unfold session at member
    cases held : boot.file name with
    | none =>
      rw [held] at member
      cases member
    | some content =>
      simp only [held, List.mem_cons, reduceCtorEq, false_or, List.mem_map, Event.ran.injEq, true_and,
        exists_eq_right] at member
      exact ⟨content, rfl, member⟩
  · rintro ⟨named, content, held, member⟩
    refine ⟨session boot name, ⟨named, rfl⟩, ?_⟩
    simp only [session, held, List.mem_cons, reduceCtorEq, false_or]
    exact List.mem_map_of_mem member

/-! ## When every interface is configured once -/

theorem eligible_file (eligible : boot.Eligible name) : ∃ content, boot.file name = some content :=
  Option.isSome_iff_exists.mp eligible.1

theorem named_once_iff : (∀ name, boot.Eligible name → boot.ifTmp.count name = 1) ↔
    (∀ name ∈ boot.listed, (boot.file name).isSome = true →
      boot.listed.count name = 1 ∧ ∀ cloner ∈ boot.cloners, name ∉ boot.named cloner) ∧
    (∀ name ∉ boot.listed, boot.Eligible name → (boot.cloners.flatMap boot.named).count name = 1) := by
  have total : ∀ name, boot.ifTmp.count name =
      boot.listed.count name + (boot.cloners.flatMap boot.named).count name := by
    intro name
    rw [ifTmp_eq, List.count_append]
  constructor
  · intro once
    refine ⟨?_, ?_⟩
    · intro name listed regular
      have count := once name ⟨regular, Or.inl listed⟩
      have some := List.count_pos_iff.mpr listed
      rw [total] at count
      refine ⟨by omega, ?_⟩
      intro cloner member named
      have again := List.count_pos_iff.mpr (List.mem_flatMap.mpr ⟨cloner, member, named⟩)
      omega
    · intro name unlisted eligible
      have count := once name eligible
      rw [total, List.count_eq_zero.mpr unlisted] at count
      omega
  · rintro ⟨existing, cloned⟩ name eligible
    rw [total]
    by_cases listed : name ∈ boot.listed
    · obtain ⟨count, unnamed⟩ := existing name listed eligible.1
      have none : name ∉ boot.cloners.flatMap boot.named := by
        intro member
        obtain ⟨cloner, held, named⟩ := List.mem_flatMap.mp member
        exact unnamed cloner held named
      rw [count, List.count_eq_zero.mpr none]
    · rw [List.count_eq_zero.mpr listed, cloned name listed eligible]

theorem once_iff : (∀ name content, boot.Eligible name → boot.file name = some content →
      (run boot created ipfilter).filter (Event.about name) =
        .opened name :: (commands content).map (.ran name)) ↔
    (∀ name, boot.Eligible name → boot.ifTmp.count name = 1) ∧
    ∀ name content, boot.Eligible name → boot.file name = some content →
      (unfinished content).filterMap command = [] := by
  simp only [about_run]
  constructor
  · intro once
    refine ⟨?_, ?_⟩
    · intro name eligible
      obtain ⟨content, held⟩ := eligible_file eligible
      exact ((sessions_complete_iff held _).mp (once name content eligible held)).1
    · intro name content eligible held
      exact ((sessions_complete_iff held _).mp (once name content eligible held)).2
  · rintro ⟨named, finished⟩ name content eligible held
    exact (sessions_complete_iff held _).mpr ⟨named name eligible, finished name content eligible held⟩

theorem others_iff :
    (∀ name, ¬ boot.Eligible name → ∀ command, .ran name command ∉ run boot created ipfilter) ↔
    ∀ cloner ∈ boot.cloners, ∀ name ∈ boot.named cloner, ¬ boot.Eligible name →
      ∀ content, boot.file name = some content → (readArgs content).filterMap command = [] := by
  constructor
  · intro silent cloner member name named other content held
    apply List.eq_nil_iff_forall_not_mem.mpr
    intro command inside
    have listed : name ∈ boot.ifTmp := by
      rw [ifTmp_eq]
      exact List.mem_append_right _ (List.mem_flatMap.mpr ⟨cloner, member, named⟩)
    exact silent name other command (ran_mem_iff.mpr ⟨listed, content, held, inside⟩)
  · intro empty name other command ran
    obtain ⟨listed, content, held, inside⟩ := ran_mem_iff.mp ran
    rw [ifTmp_eq] at listed
    rcases List.mem_append.mp listed with listed | named
    · exact other ⟨by simp [held], Or.inl listed⟩
    · obtain ⟨cloner, member, named⟩ := List.mem_flatMap.mp named
      rw [empty cloner member name named other content held] at inside
      cases inside

end

/-- Every eligible interface is configured once and no other is, exactly when the
environment is unambiguous, whatever the commands do. -/
theorem configured_once_iff (boot : Boot) (created : List Event → Text → Bool) (ipfilter : Bool) :
    ConfiguredOnce boot (run boot created ipfilter) ↔ Unambiguous boot := by
  constructor
  · intro configured
    obtain ⟨counts, finished⟩ := once_iff.mp configured.once
    obtain ⟨existing, cloned⟩ := named_once_iff.mp counts
    exact ⟨existing, cloned, others_iff.mp configured.others, finished⟩
  · intro clear
    have counts := named_once_iff.mpr ⟨clear.existing, clear.cloned⟩
    exact ⟨once_iff.mpr ⟨counts, clear.finished⟩, others_iff.mpr clear.others⟩

/-- A tunnel that exists when the script starts, with a file of its own. -/
def tunnel : Boot where
  listed := ["lo0".toList, "gif0".toList]
  cloners := ["gif".toList]
  entries := [⟨"gif0".toList, some "tunnel 10.0.0.1 10.0.0.2\n".toList⟩]
  distinct := by decide

theorem tunnel_twice : run tunnel (fun _ _ => false) false =
      [.create "gif0".toList, .opened "gif0".toList,
       .ran "gif0".toList (.ifconfig "tunnel 10.0.0.1 10.0.0.2".toList),
       .create "gif0".toList, .opened "gif0".toList,
       .ran "gif0".toList (.ifconfig "tunnel 10.0.0.1 10.0.0.2".toList)] ∧
    ¬ ConfiguredOnce tunnel (run tunnel (fun _ _ => false) false) := by
  have trace : run tunnel (fun _ _ => false) false =
      [.create "gif0".toList, .opened "gif0".toList,
       .ran "gif0".toList (.ifconfig "tunnel 10.0.0.1 10.0.0.2".toList),
       .create "gif0".toList, .opened "gif0".toList,
       .ran "gif0".toList (.ifconfig "tunnel 10.0.0.1 10.0.0.2".toList)] := by decide +kernel
  refine ⟨trace, ?_⟩
  intro configured
  have eligible : tunnel.Eligible "gif0".toList := ⟨by decide +kernel, Or.inl (by decide +kernel)⟩
  have once := configured.once "gif0".toList _ eligible rfl
  rw [trace] at once
  revert once
  decide +kernel

end Fdgw.Interfaces
