import Fdgw.Patterns

/-! The options of `src/gnu/stone/stone.c`, built as the proxy image builds it
(`cc -DUSE_IPF` on NetBSD), beside those of stone 2.1d from which `patch-2.1d`
starts. The patch puts two cases between `C` and the default, so that a second
configuration file drops through into the first of them. -/
namespace Fdgw.Options
open Patterns

inductive Release where
  | v21d
  | fdgw
  deriving DecidableEq, Repr

/-! ## Settings -/

inductive Stream where
  | stdout
  | stderr
  | opened (call : Nat) (name : Text)
  deriving DecidableEq, Repr

/-- The globals `doopts` assigns. `opens` counts the calls of `fopen`, and
`closed` and `title` record `fclose` and `setproctitle`. -/
structure Settings where
  debug : Int := 0
  syslog : Bool := false
  logFp : Option Stream := some .stderr
  accFp : Option Stream := none
  rootDir : Option Text := none
  addrFlag : Bool := false
  originMax : Int := 0
  setUID : BitVec 32 := 0
  setGID : BitVec 32 := 0
  nForks : Int := 0
  configFile : Option Text := none
  myName : Option Text := none
  transparentMode : Bool := false
  opens : Nat := 0
  closed : List Stream := []
  title : Option Text := none
  deriving DecidableEq, Repr

/-- `atoi`: white space, a sign, digits, within the range of a `long`. -/
def atoi (text : Text) : Int :=
  let text := text.dropWhile fun c => c ∈ [' ', '\t', '\n', '\x0b', '\x0c', '\r']
  let digits (text : Text) : Int :=
    ((text.takeWhile Char.isDigit).foldl (fun n c => 10 * n + (c.toNat - '0'.toNat)) 0 : Nat)
  match text with
  | '-' :: rest => max (-2147483648) (-digits rest)
  | '+' :: rest => min 2147483647 (digits rest)
  | rest => min 2147483647 (digits rest)

/-- What an option's argument is for. -/
inductive Slot where
  | log
  | acct
  | root
  | origin
  | uid
  | gid
  | forks
  | config
  | name
  deriving DecidableEq, Repr

/-- `fclose` of the stream in use, unless it is one to be left open. -/
def Settings.close (s : Settings) (stream : Option Stream) (kept : Stream) : Settings :=
  match stream with
  | some stream => if stream = kept then s else { s with closed := s.closed ++ [stream] }
  | none => s

/-- What an option does with its argument, or `none` where it ends in `exit(1)`.
`fopen` tells whether a call succeeds. -/
def assign (fopen : Nat → Text → Bool) (slot : Slot) (arg : Text) (s : Settings) : Option Settings :=
  match slot with
  | .log =>
    if arg = ['-'] then some { s with logFp := some .stdout }
    else if fopen s.opens arg then
      some { s.close s.logFp .stderr with logFp := some (.opened s.opens arg), opens := s.opens + 1 }
    else none
  | .acct =>
    if arg = ['-'] then some { s with accFp := some .stdout }
    else if fopen s.opens arg then
      some { s.close s.accFp .stdout with accFp := some (.opened s.opens arg), opens := s.opens + 1 }
    else none
  | .root => some { s with rootDir := some arg }
  | .origin => some { s with originMax := atoi arg }
  | .uid => some { s with setUID := BitVec.ofInt 32 (atoi arg) }
  | .gid => some { s with setGID := BitVec.ofInt 32 (atoi arg) }
  | .forks => some { s with nForks := atoi arg }
  | .config => some { s with configFile := some arg }
  | .name =>
    if arg = [] then some { s with myName := some arg }
    else some { s with myName := some arg, title := some arg }

/-! ## The two loops -/

/-- What the `switch` does for a letter: assign at once, take the next argument,
or complain. -/
inductive Action where
  | go (s : Settings)
  | take (slot : Slot)
  | refuse
  deriving DecidableEq, Repr

/-- The case below `C`: `N` in fdgw, the default in 2.1d. -/
def belowC : Release → Action
  | .fdgw => .take .name
  | .v21d => .refuse

def option (release : Release) (s : Settings) (c : Char) : Action :=
  match c with
  | 'd' => .go { s with debug := s.debug + 1 }
  | 'l' => .go { s with syslog := true }
  | 'L' => .take .log
  | 'a' => .take .acct
  | 't' => .take .root
  | 'n' => .go { s with addrFlag := true }
  | 'u' => .take .origin
  | 'o' => .take .uid
  | 'g' => .take .gid
  | 'f' => .take .forks
  | 'C' => if s.configFile = none then .take .config else belowC release
  | 'N' => belowC release
  | 'T' =>
    match release with
    | .fdgw => .go { s with transparentMode := true }
    | .v21d => .refuse
  | _ => .refuse

/-- How `doopts` ends: with the index of the first argument that is no option, in
`help` for an invalid option (the message names `argv[i]`), in `exit`, or by
reading an argument that is not there. -/
inductive Outcome where
  | done (i : Nat) (s : Settings)
  | help (i : Nat)
  | exit
  | undefined
  deriving DecidableEq, Repr

/-- The loops over `argv` and over the letters `p` of a cluster: `args` are the
arguments behind `argv[i]`. -/
def parse (release : Release) (fopen : Nat → Text → Bool) :
    List Text → Text → Nat → Settings → Outcome
  | args, c :: p, i, s =>
    match option release s c with
    | .go s => parse release fopen args p i s
    | .take slot =>
      match args with
      | [] => .undefined
      | arg :: rest =>
        match assign fopen slot arg s with
        | some s => parse release fopen rest p (i + 1) s
        | none => .exit
    | .refuse => .help i
  | [], [], i, s => .done (i + 1) s
  | arg :: rest, [], i, s =>
    if arg.head? = some '-' then parse release fopen rest arg.tail (i + 1) s else .done (i + 1) s
  termination_by args p => (args.length, p.length)

/-- `doopts` on the arguments behind `argv[0]`. -/
def doopts (release : Release) (fopen : Nat → Text → Bool) (args : List Text) (s : Settings) : Outcome :=
  parse release fopen args [] 0 s

/-! ## The letters that are handled -/

inductive Kind where
  | flag
  | takes
  | invalid
  deriving DecidableEq, Repr

def kind (c : Char) : Kind :=
  if c ∈ ['d', 'l', 'n', 'T'] then .flag
  else if c ∈ ['L', 'a', 't', 'u', 'o', 'g', 'f', 'C', 'N'] then .takes
  else .invalid

def opensFile (c : Char) (arg : Text) : Bool := (c = 'L' ∨ c = 'a') ∧ arg ≠ ['-']

/-- The option letters up to an invalid one, one whose argument is missing, or one
whose file cannot be opened; `opens` calls of `fopen` were made before. -/
def letters (fopen : Nat → Text → Bool) : List Text → Text → Nat → List Char
  | args, c :: p, opens =>
    match kind c with
    | .flag => c :: letters fopen args p opens
    | .takes =>
      match args with
      | [] => [c]
      | arg :: rest =>
        if opensFile c arg then
          if fopen opens arg then c :: letters fopen rest p (opens + 1) else [c]
        else c :: letters fopen rest p opens
    | .invalid => [c]
  | [], [], _ => []
  | arg :: rest, [], opens =>
    if arg.head? = some '-' then letters fopen rest arg.tail opens else []
  termination_by args p => (args.length, p.length)

/-- Reading the options ends at an invalid letter. -/
def EndsInvalid (list : List Char) : Prop := ∃ c, list.getLast? = some c ∧ kind c = .invalid

/-- How often `-C` may be met: once, and not at all when there is a configuration
file already. -/
def allowed (s : Settings) : Nat := if s.configFile = none then 1 else 0

/-! ## One letter -/

section

variable {release : Release} {fopen : Nat → Text → Bool} {args rest : List Text} {arg p : Text}
variable {c : Char} {i : Nat} {s next : Settings} {slot : Slot}

theorem parse_go (action : option release s c = .go next) :
    parse release fopen args (c :: p) i s = parse release fopen args p i next := by
  rw [parse, action]

theorem parse_refuse (action : option release s c = .refuse) :
    parse release fopen args (c :: p) i s = .help i := by
  rw [parse, action]

theorem parse_missing (action : option release s c = .take slot) :
    parse release fopen [] (c :: p) i s = .undefined := by
  rw [parse, action]

theorem parse_exit (action : option release s c = .take slot) (failed : assign fopen slot arg s = none) :
    parse release fopen (arg :: rest) (c :: p) i s = .exit := by
  rw [parse, action]
  simp only [failed]

theorem parse_take (action : option release s c = .take slot)
    (assigned : assign fopen slot arg s = some next) :
    parse release fopen (arg :: rest) (c :: p) i s = parse release fopen rest p (i + 1) next := by
  rw [parse, action]
  simp only [assigned]

theorem option_flag (flag : kind c = .flag) (s : Settings) : ∃ next, option .fdgw s c = .go next ∧
    (c ≠ 'T' → option .v21d s c = .go next) ∧ next.configFile = s.configFile ∧ next.opens = s.opens := by
  have known : c ∈ ['d', 'l', 'n', 'T'] := by
    unfold kind at flag
    split at flag
    · assumption
    · split at flag <;> cases flag
  simp only [List.mem_cons, List.not_mem_nil, or_false] at known
  rcases known with rfl | rfl | rfl | rfl
  · exact ⟨_, rfl, fun _ => rfl, rfl, rfl⟩
  · exact ⟨_, rfl, fun _ => rfl, rfl, rfl⟩
  · exact ⟨_, rfl, fun _ => rfl, rfl, rfl⟩
  · exact ⟨_, rfl, fun other => absurd rfl other, rfl, rfl⟩

theorem option_invalid (invalid : kind c = .invalid) (release : Release) (s : Settings) :
    option release s c = .refuse := by
  unfold option
  split
  all_goals first | rfl | cases invalid

def Slot.opensFile (slot : Slot) (arg : Text) : Bool := (slot = .log ∨ slot = .acct) ∧ arg ≠ ['-']

theorem takes_known (takes : kind c = .takes) : c ∈ ['L', 'a', 't', 'u', 'o', 'g', 'f', 'C', 'N'] := by
  unfold kind at takes
  split at takes
  · cases takes
  · split at takes
    · assumption
    · cases takes

theorem option_takes (takes : kind c = .takes) (s : Settings) : ∃ slot, option .fdgw s c = .take slot ∧
    (c ≠ 'N' → (c = 'C' → s.configFile = none) → option .v21d s c = .take slot) ∧
    (∀ arg, slot.opensFile arg = opensFile c arg) ∧ (slot = .config ↔ c = 'C' ∧ s.configFile = none) := by
  have known := takes_known takes
  simp only [List.mem_cons, List.not_mem_nil, or_false] at known
  rcases known with rfl | rfl | rfl | rfl | rfl | rfl | rfl | rfl | rfl
  · exact ⟨.log, rfl, fun _ _ => rfl, by simp [Slot.opensFile, opensFile], by simp⟩
  · exact ⟨.acct, rfl, fun _ _ => rfl, by simp [Slot.opensFile, opensFile], by simp⟩
  · exact ⟨.root, rfl, fun _ _ => rfl, by simp [Slot.opensFile, opensFile], by simp⟩
  · exact ⟨.origin, rfl, fun _ _ => rfl, by simp [Slot.opensFile, opensFile], by simp⟩
  · exact ⟨.uid, rfl, fun _ _ => rfl, by simp [Slot.opensFile, opensFile], by simp⟩
  · exact ⟨.gid, rfl, fun _ _ => rfl, by simp [Slot.opensFile, opensFile], by simp⟩
  · exact ⟨.forks, rfl, fun _ _ => rfl, by simp [Slot.opensFile, opensFile], by simp⟩
  · by_cases unset : s.configFile = none
    · exact ⟨.config, if_pos unset, fun _ _ => if_pos unset,
        by simp [Slot.opensFile, opensFile], by simp [unset]⟩
    · exact ⟨.name, if_neg unset, fun _ absent => absurd (absent rfl) unset,
        by simp [Slot.opensFile, opensFile], by simp [unset]⟩
  · exact ⟨.name, rfl, fun other => absurd rfl other, by simp [Slot.opensFile, opensFile], by simp⟩

@[simp] theorem close_opens (s : Settings) (stream : Option Stream) (kept : Stream) :
    (s.close stream kept).opens = s.opens := by
  unfold Settings.close
  split
  · split <;> rfl
  · rfl

@[simp] theorem close_configFile (s : Settings) (stream : Option Stream) (kept : Stream) :
    (s.close stream kept).configFile = s.configFile := by
  unfold Settings.close
  split
  · split <;> rfl
  · rfl

/-- An argument is refused only where its file cannot be opened. -/
theorem assign_spec (fopen : Nat → Text → Bool) (slot : Slot) (arg : Text) (s : Settings) :
    (slot.opensFile arg = true ∧ fopen s.opens arg = false ∧ assign fopen slot arg s = none) ∨
    ∃ next, assign fopen slot arg s = some next ∧ (slot.opensFile arg = true → fopen s.opens arg = true) ∧
      next.opens = s.opens + (if slot.opensFile arg then 1 else 0) ∧
      next.configFile = if slot = .config then some arg else s.configFile := by
  cases slot with
  | log | acct =>
    by_cases dash : arg = ['-']
    · simp [assign, Slot.opensFile, dash]
    · cases answer : fopen s.opens arg <;> simp [assign, Slot.opensFile, dash, answer]
  | name =>
    by_cases empty : arg = [] <;> simp [assign, Slot.opensFile, empty]
  | root | origin | uid | gid | forks | config => simp [assign, Slot.opensFile]

/-! ## Both releases -/

theorem letters_flag (flag : kind c = .flag) (n : Nat) :
    letters fopen args (c :: p) n = c :: letters fopen args p n := by
  rw [letters.eq_def]
  simp only [flag]

theorem letters_invalid (invalid : kind c = .invalid) (n : Nat) : letters fopen args (c :: p) n = [c] := by
  rw [letters.eq_def]
  simp only [invalid]

theorem letters_missing (takes : kind c = .takes) (n : Nat) : letters fopen [] (c :: p) n = [c] := by
  rw [letters, takes]

/-- What one letter with an argument does in fdgw, and in 2.1d where the two agree. -/
theorem parse_takes (takes : kind c = .takes) (s : Settings) (i : Nat) :
    (letters fopen (arg :: rest) (c :: p) s.opens = [c] ∧
      parse .fdgw fopen (arg :: rest) (c :: p) i s = .exit ∧
      (c ≠ 'N' → (c = 'C' → s.configFile = none) →
        parse .v21d fopen (arg :: rest) (c :: p) i s = .exit)) ∨
    ∃ next : Settings, letters fopen (arg :: rest) (c :: p) s.opens = c :: letters fopen rest p next.opens ∧
      parse .fdgw fopen (arg :: rest) (c :: p) i s = parse .fdgw fopen rest p (i + 1) next ∧
      (c ≠ 'N' → (c = 'C' → s.configFile = none) →
        parse .v21d fopen (arg :: rest) (c :: p) i s = parse .v21d fopen rest p (i + 1) next) ∧
      (next.configFile = none ↔ s.configFile = none ∧ c ≠ 'C') := by
  obtain ⟨slot, action, older, opens, config⟩ := option_takes takes s
  rcases assign_spec fopen slot arg s with ⟨opening, failed, refused⟩ | ⟨next, assigned, opened, count, file⟩
  · refine Or.inl ⟨?_, parse_exit action refused, fun other unset => parse_exit (older other unset) refused⟩
    rw [opens] at opening
    rw [letters, takes]
    simp [opening, failed]
  · refine Or.inr ⟨next, ?_, parse_take action assigned,
      fun other unset => parse_take (older other unset) assigned, ?_⟩
    · rw [opens] at opened count
      rw [letters, takes, count]
      by_cases opening : opensFile c arg = true
      · simp [opening, opened opening]
      · simp [opening]
    · rw [file]
      by_cases set : c = 'C' ∧ s.configFile = none
      · simp [config.mpr set, set]
      · rw [if_neg (fun same => set (config.mp same))]
        grind

/-- The loops go on with the letters behind the one just handled, with or without
its argument, or with the next argument. -/
theorem options_induction {motive : List Text → Text → Prop} (done : motive [] [])
    (next : ∀ arg rest, motive rest arg.tail → motive (arg :: rest) [])
    (letter : ∀ args c p, motive args p → (∀ arg rest, args = arg :: rest → motive rest p) →
      motive args (c :: p))
    (args : List Text) (p : Text) : motive args p := by
  induction args generalizing p with
  | nil =>
    induction p with
    | nil => exact done
    | cons c p ih =>
      apply letter [] c p ih
      intro arg rest none
      cases none
  | cons arg rest shorter =>
    induction p with
    | nil => exact next arg rest (shorter arg.tail)
    | cons c p ih =>
      apply letter (arg :: rest) c p ih
      intro other more shape
      cases shape
      exact shorter p

theorem endsInvalid_cons (valid : kind c ≠ .invalid) (list : List Char) :
    EndsInvalid (c :: list) ↔ EndsInvalid list := by
  cases list with
  | nil => simp [EndsInvalid, valid]
  | cons d list => simp [EndsInvalid]

/-- fdgw's `doopts` ends in `help` where the letters end in an invalid one. -/
theorem help_iff (i : Nat) : (∃ j, parse .fdgw fopen args p i s = .help j) ↔
    EndsInvalid (letters fopen args p s.opens) := by
  induction args, p using options_induction generalizing i s with
  | done => simp [parse, letters, EndsInvalid]
  | next arg rest ih =>
    rw [parse, letters]
    split
    · exact ih _
    · simp [EndsInvalid]
  | letter args c p same shorter =>
    cases held : kind c with
    | flag =>
      obtain ⟨next, action, -, -, opens⟩ := option_flag held s
      rw [parse_go action, letters_flag held, endsInvalid_cons (by simp [held]), ← opens]
      exact same i
    | takes =>
      cases args with
      | nil =>
        obtain ⟨slot, action, -⟩ := option_takes held s
        rw [parse_missing action, letters_missing held]
        simp [EndsInvalid, held]
      | cons arg rest =>
        rcases parse_takes held s i with ⟨last, exits, -⟩ | ⟨next, met, goes, -⟩
        · rw [last, exits]
          simp [EndsInvalid, held]
        · rw [met, goes, endsInvalid_cons (by simp [held])]
          exact shorter arg rest rfl (i + 1)
    | invalid =>
      rw [parse_refuse (option_invalid held .fdgw s), letters_invalid held]
      exact iff_of_true ⟨i, rfl⟩ ⟨c, rfl, held⟩

/-- The vector has neither `N` nor `T` among its options. -/
def Older (list : List Char) : Prop := ∀ c ∈ list, c ≠ 'N' ∧ c ≠ 'T'

theorem older_cons (list : List Char) : Older (c :: list) ↔ (c ≠ 'N' ∧ c ≠ 'T') ∧ Older list :=
  List.forall_mem_cons

/-- A letter other than a second `C` leaves as many allowed as it was itself. -/
theorem allowed_next (file : next.configFile = none ↔ s.configFile = none ∧ c ≠ 'C')
    (first : c = 'C' → s.configFile = none) (list : List Char) :
    (c :: list).count 'C' ≤ allowed s ↔ list.count 'C' ≤ allowed next := by
  unfold allowed
  by_cases config : c = 'C'
  · have unset := first config
    have set : next.configFile ≠ none := fun none => (file.mp none).2 config
    subst config
    rw [List.count_cons_self, if_pos unset, if_neg set]
    omega
  · have kept : next.configFile = none ↔ s.configFile = none := by simp [file, config]
    rw [List.count_cons_of_ne config, if_congr kept rfl rfl]

theorem allowed_last (first : c = 'C' → s.configFile = none) : [c].count 'C' ≤ allowed s := by
  by_cases config : c = 'C'
  · rw [allowed, if_pos (first config), List.count_singleton]
    split <;> omega
  · rw [List.count_cons_of_ne config]
    exact Nat.zero_le _

theorem letters_takes (takes : kind c = .takes) (args : List Text) (p : Text) (s : Settings) :
    ∃ list, letters fopen args (c :: p) s.opens = c :: list := by
  cases args with
  | nil => exact ⟨[], letters_missing takes _⟩
  | cons arg rest =>
    rcases parse_takes takes s 0 with ⟨last, -⟩ | ⟨next, met, -⟩
    · exact ⟨[], last⟩
    · exact ⟨_, met⟩

/-- The releases agree while no more `C`s are met than allowed; 2.1d rejects the rest. -/
theorem parse_releases (older : Older (letters fopen args p s.opens)) (i : Nat) :
    ((letters fopen args p s.opens).count 'C' ≤ allowed s →
      parse .fdgw fopen args p i s = parse .v21d fopen args p i s) ∧
    (allowed s < (letters fopen args p s.opens).count 'C' →
      ∃ j, parse .v21d fopen args p i s = .help j) := by
  induction args, p using options_induction generalizing i s with
  | done => simp [parse, letters]
  | next arg rest ih =>
    rw [letters] at older ⊢
    rw [parse, parse]
    split
    · rename_i dash
      rw [if_pos dash] at older
      exact ih older _
    · simp
  | letter args c p same shorter =>
    cases held : kind c with
    | flag =>
      obtain ⟨next, action, older21d, file, opens⟩ := option_flag held s
      have other : c ≠ 'C' := by
        rintro rfl
        cases held
      have bound : allowed next = allowed s := by rw [allowed, allowed, file]
      rw [letters_flag held, older_cons, ← opens] at older
      rw [letters_flag held, List.count_cons_of_ne other, parse_go action,
        parse_go (older21d older.1.2), ← opens, ← bound]
      exact same older.2 i
    | takes =>
      by_cases first : c = 'C' → s.configFile = none
      · cases args with
        | nil =>
          obtain ⟨slot, action, older21d, -⟩ := option_takes held s
          rw [letters_missing held] at older ⊢
          rw [parse_missing action, parse_missing (older21d (older c (List.mem_singleton_self c)).1 first)]
          exact ⟨fun _ => rfl, fun many => absurd many (Nat.not_lt.mpr (allowed_last first))⟩
        | cons arg rest =>
          rcases parse_takes held s i with ⟨last, exits, older21d⟩ | ⟨next, met, goes, older21d, file⟩
          · rw [last] at older ⊢
            rw [exits, older21d (older c (List.mem_singleton_self c)).1 first]
            exact ⟨fun _ => rfl, fun many => absurd many (Nat.not_lt.mpr (allowed_last first))⟩
          · rw [met, older_cons] at older
            rw [met, goes, older21d older.1.1 first, allowed_next file first, ← not_le,
              allowed_next file first, not_le]
            exact shorter arg rest rfl older.2 (i + 1)
      · obtain ⟨rfl, set⟩ := Classical.not_imp.mp first
        obtain ⟨list, met⟩ := letters_takes held args p s
        have refused : option .v21d s 'C' = .refuse := if_neg set
        rw [met, List.count_cons_self, allowed, if_neg set, parse_refuse refused]
        exact ⟨fun few => absurd few (by omega), fun _ => ⟨i, rfl⟩⟩
    | invalid =>
      have other : c ≠ 'C' := by
        rintro rfl
        cases held
      rw [parse_refuse (option_invalid held .fdgw s), parse_refuse (option_invalid held .v21d s)]
      exact ⟨fun _ => rfl, fun _ => ⟨i, rfl⟩⟩

end

/-! ## Conservative extension -/

/-- The same settings and the same index, or the same way of giving up. -/
def SameResult : Outcome → Outcome → Prop
  | .done i s, .done j t => i = j ∧ s = t
  | .help _, .help _ => True
  | .exit, .exit => True
  | .undefined, .undefined => True
  | _, _ => False

theorem SameResult.refl (outcome : Outcome) : SameResult outcome outcome := by
  cases outcome with
  | done i s => exact ⟨rfl, rfl⟩
  | help | exit | undefined => trivial

/-- Without `N` and `T`, fdgw's `doopts` does what that of 2.1d does exactly when no
`-C` is met that comes after a configuration file was given, or an invalid option
ends the matter anyway. -/
theorem conservative_iff (fopen : Nat → Text → Bool) (args : List Text) (s : Settings)
    (older : ∀ c ∈ letters fopen args [] s.opens, c ≠ 'N' ∧ c ≠ 'T') :
    SameResult (doopts .fdgw fopen args s) (doopts .v21d fopen args s) ↔
      (letters fopen args [] s.opens).count 'C' ≤ (if s.configFile = none then 1 else 0) ∨
        EndsInvalid (letters fopen args [] s.opens) := by
  obtain ⟨agree, rejected⟩ := parse_releases older 0
  rw [doopts, doopts, ← allowed]
  constructor
  · intro same
    by_cases few : (letters fopen args [] s.opens).count 'C' ≤ allowed s
    · exact Or.inl few
    · obtain ⟨j, help⟩ := rejected (Nat.lt_of_not_le few)
      refine Or.inr ((help_iff 0).mp ?_)
      rw [help] at same
      cases outcome : parse .fdgw fopen args [] 0 s with
      | help k => exact ⟨k, rfl⟩
      | done | exit | undefined =>
        rw [outcome] at same
        exact absurd same id
  · rintro (few | ends)
    · rw [agree few]
      exact SameResult.refl _
    · by_cases few : (letters fopen args [] s.opens).count 'C' ≤ allowed s
      · rw [agree few]
        exact SameResult.refl _
      · obtain ⟨j, help⟩ := rejected (Nat.lt_of_not_le few)
        obtain ⟨k, also⟩ := (help_iff 0).mpr ends
        rw [help, also]
        trivial

/-- A first configuration file on the command line. -/
def commandLine : List Text := ["-dl".toList, "-C".toList, "stone.cf".toList, "mail:110".toList]

theorem commandLine_letters : letters (fun _ _ => true) commandLine [] 0 = ['d', 'l', 'C'] := by
  simp [commandLine, letters, kind, opensFile]

theorem conservative_iff_commandLine :
    SameResult (doopts .fdgw (fun _ _ => true) commandLine {})
      (doopts .v21d (fun _ _ => true) commandLine {}) := by
  have met : letters (fun _ _ => true) commandLine [] ({} : Settings).opens = ['d', 'l', 'C'] :=
    commandLine_letters
  apply (conservative_iff (fun _ _ => true) commandLine {} (by simp [met])).mpr
  rw [met]
  exact Or.inl (by simp)

/-- The settings after a configuration file was given. -/
def configured : Settings := { configFile := some "stone.cf".toList }

/-- A configuration file that names another one. -/
def again : List Text := ["-C".toList, "other.cf".toList]

theorem second_config_renames :
    letters (fun _ _ => true) again [] configured.opens = ['C'] ∧
    doopts .fdgw (fun _ _ => true) again configured = .done 3
      { configured with myName := some "other.cf".toList, title := some "other.cf".toList } ∧
    doopts .v21d (fun _ _ => true) again configured = .help 1 ∧
    ¬ SameResult (doopts .fdgw (fun _ _ => true) again configured)
      (doopts .v21d (fun _ _ => true) again configured) := by
  have renamed : doopts .fdgw (fun _ _ => true) again configured = .done 3
      { configured with myName := some "other.cf".toList, title := some "other.cf".toList } := by
    simp [doopts, again, configured, parse, option, belowC, assign]
  have rejected : doopts .v21d (fun _ _ => true) again configured = .help 1 := by
    simp [doopts, again, configured, parse, option, belowC]
  refine ⟨?_, renamed, rejected, ?_⟩
  · simp [again, letters, kind, opensFile]
  · rw [renamed, rejected]
    exact id

end Fdgw.Options
