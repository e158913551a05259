import Fdgw.Runs
import Fdgw.TextLines
import Mathlib.Data.List.DropRight

/-!
`src/usr.sbin/edomae/uni.sh`: the menus of the configuration interface.

Every menu function assigns some of the variables `cmd_0` … `cmd_6`, and an
answer `n` runs the value of `cmd_n`, whichever menu set it last. Lines that the
shell would take apart (in the `eval` of the answer or of a host name) are left
to the parameter `sh`.
-/
namespace Fdgw.Uni
open Patterns TextLines Runs

/-- What the variables `cmd_*` can hold. `foreign` is anything else a line may
make the shell run. -/
inductive Command where
  | exit
  | menuTop
  | menuFundamental
  | menuFundamentalHostname
  | menuNetwork
  | menuNetworkIfconfig
  | menuNetworkRouting
  | menuNetworkDns
  | menuReboot
  | menuShell
  | menuEditor
  | foreign (text : Text)
  deriving DecidableEq, Repr

inductive Menu where
  | top | fundamental | network
  deriving DecidableEq, Repr

/-- The variable `select` of the displayed menu. -/
def Menu.select : Menu → Text
  | .top => "0-6".toList
  | .fundamental => "012".toList
  | .network => "0123".toList

/-- The assignments of a menu function; an empty value runs nothing. -/
def Menu.assigns : Menu → List (Char × Option Command)
  | .top => [('0', some .exit), ('1', some .menuFundamental), ('2', some .menuNetwork), ('3', none),
      ('4', some .menuReboot), ('5', some .menuShell), ('6', some .menuEditor)]
  | .fundamental => [('0', some .menuTop), ('1', some .menuFundamentalHostname), ('2', none)]
  | .network => [('0', some .menuTop), ('1', some .menuNetworkIfconfig),
      ('2', some .menuNetworkRouting), ('3', some .menuNetworkDns)]

/-- The value of `cmd_n` for every suffix `n`. -/
abbrev Table := Text → Option Command

/-- Which prompt is being answered. -/
inductive Mode where
  | select | hostname | domain | nameserver | exited
  deriving DecidableEq, Repr

structure State where
  menu : Menu
  table : Table
  mode : Mode

def overwrite (assigns : List (Char × Option Command)) (table : Table) : Table := fun n =>
  match assigns.find? fun (c, _) => [c] = n with
  | some (_, command) => command
  | none => table n

/-- A menu function: set `select` and the commands, and print. -/
def display (menu : Menu) (s : State) : State :=
  { s with menu, table := overwrite menu.assigns s.table }

/-- `menu_top` has run and `cmd_q` is set. -/
def initial : State :=
  display .top ⟨.top, fun n => if n = ['q'] then some .exit else none, .select⟩

/-- `eval $hook`. Two functions the network menu names do not exist, and the
reboot is under way while the loop goes on. -/
def perform (s : State) : Command → State
  | .exit => { s with mode := .exited }
  | .menuTop => display .top s
  | .menuFundamental => display .fundamental s
  | .menuFundamentalHostname => { s with mode := .hostname }
  | .menuNetwork => display .network s
  | .menuNetworkDns => { s with mode := .domain }
  | .menuShell => display .top s
  | .menuEditor => display .top s
  | .menuNetworkIfconfig => s
  | .menuNetworkRouting => s
  | .menuReboot => s
  | .foreign _ => s

/-- What `read` leaves of a line without backslashes. -/
def trimmed (line : Text) : Text := (line.dropWhile isBlank).rdropWhile isBlank

/-- The answer stays one variable name in `eval hook=\$cmd_${n}`. -/
def nameLike (n : Text) : Bool := n.all Atom.word.accepts

/-- The value stays one word in `eval $wrapper hostname $hostname` and after
`local`. -/
def wordLike (value : Text) : Bool := value.all fun c => Atom.word.accepts c || c ∈ ['.', '-', ':']

section Loop

variable (sh : State → Text → State × Option Command)

/-- The command a line typed at the Select prompt makes the loop run. -/
def dispatched (s : State) (line : Text) : Option Command :=
  if nameLike (trimmed line) then s.table (trimmed line) else (sh s line).2

/-- A sub-prompt: empty input is asked for again. -/
def supply (s : State) (line : Text) (next : State) : State :=
  if trimmed line = [] then s
  else if wordLike (trimmed line) then next
  else (sh s line).1

def step (s : State) (line : Text) : Option State :=
  match s.mode with
  | .exited => none
  | .select =>
    if nameLike (trimmed line) then
      some (match s.table (trimmed line) with
        | some command => perform s command
        | none => s)
    else some (sh s line).1
  | .hostname => some (supply sh s line (display .fundamental { s with mode := .select }))
  | .domain => some (supply sh s line { s with mode := .nameserver })
  | .nameserver => some (supply sh s line { s with mode := .select })

end Loop

/-! ## What the menus promise -/

/-- The characters a `select` string stands for. -/
def choices : Text → List Char
  | a :: '-' :: b :: rest => (List.range (b.toNat + 1 - a.toNat)).map (fun i => Char.ofNat (a.toNat + i)) ++
      choices rest
  | a :: rest => a :: choices rest
  | [] => []

/-- The answer is in the select string, or `q`. -/
def Offers (menu : Menu) (n : Text) : Prop := n = ['q'] ∨ ∃ c ∈ choices menu.select, n = [c]

/-- The command a menu gives to an answer. -/
def assigned (menu : Menu) (n : Text) : Option Command :=
  if n = ['q'] then some .exit else overwrite menu.assigns (fun _ => none) n

/-- Only offered answers run something, and then what the menu says. -/
structure Faithful (sh : State → Text → State × Option Command) (s : State) (line : Text) : Prop where
  runs : ∀ command, dispatched sh s line = some command →
    Offers s.menu (trimmed line) ∧ assigned s.menu (trimmed line) = some command
  ignores : ¬Offers s.menu (trimmed line) → dispatched sh s line = none ∧ step sh s line = some s

/-- The entries the top menu leaves behind in the other two. -/
def Stale (menu : Menu) (n : Text) : Prop := menu ≠ .top ∧ (n = ['4'] ∨ n = ['5'] ∨ n = ['6'])

/-- Lines the shell reads as one word and that are no leftover choice. -/
def Tame (s : State) (line : Text) : Prop :=
  match s.mode with
  | .select => nameLike (trimmed line) = true ∧ ¬Stale s.menu (trimmed line)
  | .hostname | .domain | .nameserver => wordLike (trimmed line) = true
  | .exited => True

/-! ## The table is a function of the menu -/

variable {sh : State → Text → State × Option Command} {s t : State} {line n : Text} {m : Menu}

/-- The table in force while a menu is displayed: the menu's own assignments over
those of the top menu. -/
def expected : Menu → Table
  | .top => initial.table
  | m => overwrite m.assigns initial.table

/-- The suffixes that ever get a value. -/
def known : List Text := [['0'], ['1'], ['2'], ['3'], ['4'], ['5'], ['6'], ['q']]

theorem assigns_known (m : Menu) : ∀ entry ∈ m.assigns, [entry.1] ∈ known := by
  cases m <;> decide

theorem overwrite_unknown (unknown : n ∉ known) (m : Menu) (table : Table) :
    overwrite m.assigns table n = table n := by
  unfold overwrite
  have none : m.assigns.find? (fun (c, _) => [c] = n) = none := by
    apply List.find?_eq_none.mpr
    intro entry member
    have held := assigns_known m entry member
    simp only [decide_eq_true_eq]
    rintro rfl
    exact unknown held
  rw [none]

theorem expected_unknown (unknown : n ∉ known) (m : Menu) : expected m n = none := by
  have start : initial.table n = none := by
    have differ : n ≠ ['q'] := by
      rintro rfl
      exact unknown (by decide)
    exact (overwrite_unknown unknown .top _).trans (if_neg differ)
  cases m with
  | top => exact start
  | _ => exact (overwrite_unknown unknown _ _).trans start

/-- Returning to the top menu restores its table from any other. -/
theorem overwrite_top (m : Menu) (n : Text) :
    overwrite Menu.top.assigns (expected m) n = expected .top n := by
  by_cases held : n ∈ known
  · simp only [known, List.mem_cons, List.not_mem_nil, or_false] at held
    rcases held with rfl | rfl | rfl | rfl | rfl | rfl | rfl | rfl <;> cases m <;> rfl
  · rw [overwrite_unknown held, expected_unknown held, expected_unknown held]

/-- A menu entered from the top menu or drawn again. -/
theorem overwrite_same (origin : Menu) (entered : origin = .top ∨ origin = m) (n : Text) :
    overwrite m.assigns (expected origin) n = expected m n := by
  by_cases held : n ∈ known
  · simp only [known, List.mem_cons, List.not_mem_nil, or_false] at held
    rcases entered with rfl | rfl
    · rcases held with rfl | rfl | rfl | rfl | rfl | rfl | rfl | rfl <;> cases m <;> rfl
    · rcases held with rfl | rfl | rfl | rfl | rfl | rfl | rfl | rfl <;> cases origin <;> rfl
  · rw [overwrite_unknown held, expected_unknown held, expected_unknown held]

instance (m : Menu) (n : Text) : Decidable (Offers m n) :=
  decidable_of_iff (n = ['q'] ∨ ((choices m.select).any fun c => n = [c]) = true) (by simp [Offers])

instance (m : Menu) (n : Text) : Decidable (Stale m n) :=
  inferInstanceAs (Decidable (_ ∧ _))

/-- The commands an answer can run in a menu, leftovers apart. -/
def Menu.commands : Menu → List Command
  | .top => [.exit, .menuFundamental, .menuNetwork, .menuReboot, .menuShell, .menuEditor]
  | .fundamental => [.exit, .menuTop, .menuFundamentalHostname]
  | .network => [.exit, .menuTop, .menuNetworkIfconfig, .menuNetworkRouting, .menuNetworkDns]

private theorem known_faithful (m : Menu) : ∀ n ∈ known, Stale m n ∨ (expected m n).all (fun command =>
    command ∈ m.commands ∧ Offers m n ∧ assigned m n = some command) = true := by
  cases m <;> decide

private theorem stale_runs (m : Menu) : ∀ n ∈ known, Stale m n →
    (expected m n).isSome = true ∧ ¬Offers m n := by
  cases m <;> decide

theorem expected_some (found : expected m n = some command) (fresh : ¬Stale m n) :
    command ∈ m.commands ∧ Offers m n ∧ assigned m n = some command := by
  by_cases held : n ∈ known
  · rcases known_faithful m n held with stale | faithful
    · exact absurd stale fresh
    · simpa [found] using faithful
  · rw [expected_unknown held] at found
    cases found

/-! ## Runs -/

/-- The table is the menu's, and the sub-prompts belong to their menus. -/
structure Settled (s : State) : Prop where
  table : ∀ n, s.table n = expected s.menu n
  hostname : s.mode = .hostname → s.menu = .fundamental
  domain : s.mode = .domain → s.menu = .network
  nameserver : s.mode = .nameserver → s.menu = .network

theorem display_settled (settled : Settled s) (entered : m = .top ∨ s.menu = .top ∨ s.menu = m)
    (prompt : s.mode = .select) : Settled (display m s) := by
  have table : ∀ n, (display m s).table n = expected m n := by
    intro n
    have same : s.table = expected s.menu := funext settled.table
    show overwrite m.assigns s.table n = expected m n
    rw [same]
    rcases entered with rfl | entered
    · exact overwrite_top s.menu n
    · exact overwrite_same s.menu entered n
  refine ⟨table, ?_, ?_, ?_⟩ <;> intro mode <;> simp [display, prompt] at mode

theorem Settled.mode (settled : Settled s) (mode : Mode)
    (fits : mode = .hostname ∧ s.menu = .fundamental ∨
      (mode = .domain ∨ mode = .nameserver) ∧ s.menu = .network ∨ mode = .select ∨ mode = .exited) :
    Settled { s with mode } := by
  refine ⟨settled.table, ?_, ?_, ?_⟩ <;> rintro rfl <;> simpa using fits

/-- A command of the displayed menu keeps the table and the menu together. -/
theorem perform_settled (settled : Settled s) (prompt : s.mode = .select)
    (member : command ∈ s.menu.commands) : Settled (perform s command) := by
  cases shown : s.menu with
  | top =>
    rw [shown] at member
    simp only [Menu.commands, List.mem_cons, List.not_mem_nil, or_false] at member
    rcases member with rfl | rfl | rfl | rfl | rfl | rfl
    · exact settled.mode .exited (by simp)
    · exact display_settled settled (by simp [shown]) prompt
    · exact display_settled settled (by simp [shown]) prompt
    · exact settled
    · exact display_settled settled (Or.inl rfl) prompt
    · exact display_settled settled (Or.inl rfl) prompt
  | fundamental =>
    rw [shown] at member
    simp only [Menu.commands, List.mem_cons, List.not_mem_nil, or_false] at member
    rcases member with rfl | rfl | rfl
    · exact settled.mode .exited (by simp)
    · exact display_settled settled (Or.inl rfl) prompt
    · exact settled.mode .hostname (by simp [shown])
  | network =>
    rw [shown] at member
    simp only [Menu.commands, List.mem_cons, List.not_mem_nil, or_false] at member
    rcases member with rfl | rfl | rfl | rfl | rfl
    · exact settled.mode .exited (by simp)
    · exact display_settled settled (Or.inl rfl) prompt
    · exact settled
    · exact settled
    · exact settled.mode .domain (by simp [shown])

theorem supply_settled (settled : Settled s) (tame : wordLike (trimmed line) = true)
    (next : Settled t) : Settled (supply sh s line t) := by
  unfold supply
  split
  · exact settled
  · exact next

theorem step_settled (settled : Settled s) (tame : Tame s line) (ran : step sh s line = some t) :
    Settled t := by
  unfold step at ran
  unfold Tame at tame
  cases prompt : s.mode with
  | exited =>
    rw [prompt] at ran
    cases ran
  | select =>
    rw [prompt] at ran tame
    simp only [tame.1, if_true, Option.some.injEq] at ran
    subst ran
    cases found : s.table (trimmed line) with
    | none => exact settled
    | some command =>
      rw [settled.table] at found
      exact perform_settled settled prompt (expected_some found tame.2).1
  | hostname =>
    rw [prompt] at ran tame
    cases ran
    have menu := settled.hostname prompt
    apply supply_settled settled tame
    exact display_settled (settled.mode .select (by simp)) (by simp [menu]) rfl
  | domain =>
    rw [prompt] at ran tame
    cases ran
    exact supply_settled settled tame (settled.mode .nameserver (by simp [settled.domain prompt]))
  | nameserver =>
    rw [prompt] at ran tame
    cases ran
    exact supply_settled settled tame (settled.mode .select (by simp))

theorem initial_settled : Settled initial := by
  refine ⟨fun _ => rfl, ?_, ?_, ?_⟩ <;> intro mode <;> cases mode

/-- In a settled state a variable name is answered faithfully unless it picks a
leftover of the top menu. -/
theorem faithful_iff (settled : Settled s) (prompt : s.mode = .select)
    (plain : nameLike (trimmed line) = true) :
    Faithful sh s line ↔ ¬Stale s.menu (trimmed line) := by
  have dispatch : dispatched sh s line = expected s.menu (trimmed line) := by
    rw [dispatched, if_pos plain, settled.table]
  constructor
  · intro faithful stale
    have held : trimmed line ∈ known := by
      rcases stale.2 with four | five | six
      · rw [four]; decide
      · rw [five]; decide
      · rw [six]; decide
    obtain ⟨some, unoffered⟩ := stale_runs s.menu _ held stale
    rw [← dispatch, (faithful.ignores unoffered).1] at some
    cases some
  · intro fresh
    refine ⟨?_, ?_⟩
    · intro command found
      rw [dispatch] at found
      exact (expected_some found fresh).2
    · intro unoffered
      have none : expected s.menu (trimmed line) = none := by
        cases found : expected s.menu (trimmed line) with
        | none => rfl
        | some command => exact absurd (expected_some found fresh).2.1 unoffered
      refine ⟨dispatch.trans none, ?_⟩
      unfold step
      rw [prompt]
      simp only [plain, if_true]
      rw [settled.table, none]

/-- However the menus were walked with tame lines, the next tame answer runs what
the displayed menu offers, or nothing. -/
theorem menu_safe (sh : State → Text → State × Option Command) (lines : List Text) (line : Text)
    (tame : Guarded (step sh) Tame initial (lines ++ [line]))
    (ran : run (step sh) initial lines = some s) (prompt : s.mode = .select) : Faithful sh s line := by
  obtain ⟨before, last⟩ := guarded_append tame ran
  have settled : Settled s := by
    refine guarded_invariant ?_ initial_settled before ran
    intro s line t settled tame ran
    exact step_settled settled tame ran
  have here := last.1
  unfold Tame at here
  rw [prompt] at here
  exact (faithful_iff settled prompt here.1).mpr here.2

/-- From the fundamental menu back to the top. -/
theorem menu_safe_return : ∃ s, run (step fun s _ => (s, none)) initial [['1']] = some s ∧
    s.menu = .fundamental ∧ Faithful (fun s _ => (s, none)) s ['0'] := by
  refine ⟨display .fundamental initial, rfl, rfl,
    menu_safe _ [['1']] ['0'] ⟨⟨by decide, by decide⟩, ?_⟩ rfl rfl⟩
  intro t first
  cases first
  exact ⟨⟨by decide, by decide⟩, fun _ _ => trivial⟩

/-- The fundamental menu offers 0, 1 and 2; answering 4 there reboots. -/
theorem stale_choice_reboots : ∃ s, run (step fun s _ => (s, none)) initial [['1']] = some s ∧
    s.menu = .fundamental ∧ s.mode = .select ∧
    dispatched (fun s _ => (s, none)) s ['4'] = some .menuReboot ∧
    ¬Faithful (fun s _ => (s, none)) s ['4'] := by
  refine ⟨display .fundamental initial, rfl, rfl, rfl, by decide, ?_⟩
  intro faithful
  have offered := (faithful.runs .menuReboot (by decide)).1
  exact absurd offered (by decide)

end Fdgw.Uni
