import Fdgw.TextLines

/-! Simple commands as a POSIX shell reads them: words with their quoting,
comments, continued lines, and the assignments a sourced line makes. Expansions
and the control operators are outside the fragment, and a text that uses them
has no reading here. -/
namespace Fdgw.ShellWords
open Patterns TextLines

/-! ## Words -/

/-- A name in quotes is not assigned to, so a word remembers its quoting.
`quote` stands where a quoted part starts, even an empty one. -/
inductive Letter where
  | bare (c : Char)
  | quoted (c : Char)
  | quote
  deriving DecidableEq, Repr

abbrev Word := List Letter

def Letter.text : Letter → Text
  | .bare c => [c]
  | .quoted c => [c]
  | .quote => []

/-- Quote removal. -/
def wordText (word : Word) : Text := word.flatMap Letter.text

def isGap (c : Char) : Bool := c == ' ' || c == '\t'

def isQuote (c : Char) : Bool := c == '\x27' || c == '\x22'

/-- Expansions, operators and redirections, which are not modelled. -/
def isSpecial (c : Char) : Bool := c ∈ ['$', '\x60', ';', '&', '|', '<', '>', '(', ')', '~']

inductive Mode where
  | between
  | bare
  | inside (quote : Char)
  | comment
  | escaped (back : Mode)
  deriving DecidableEq, Repr

def prepend (front : Word) : List Word → List Word
  | [] => [front]
  | word :: words => (front ++ word) :: words

/-- One command: nothing but empty lines may follow its newline. -/
def ended (rest : Text) : Option (List Word) := if rest.all (· == '\n') then some [] else none

/-- The words of a command. In the modes `bare` and `inside` the first of them
is what remains of the word being read. A backslash only continues a line. -/
def lex : Mode → Text → Option (List Word)
  | .between, [] => some []
  | .bare, [] => some [[]]
  | .inside _, [] => none
  | .comment, [] => some []
  | .escaped _, [] => none
  | .between, c :: rest =>
    if isGap c then lex .between rest
    else if c = '\n' then ended rest
    else if c = '#' then lex .comment rest
    else if c = '\\' then lex (.escaped .between) rest
    else if isQuote c then (lex (.inside c) rest).map (prepend [.quote])
    else if isSpecial c then none
    else (lex .bare rest).map (prepend [.bare c])
  | .bare, c :: rest =>
    if isGap c then (lex .between rest).map ([] :: ·)
    else if c = '\n' then (ended rest).map ([] :: ·)
    else if c = '\\' then lex (.escaped .bare) rest
    else if isQuote c then (lex (.inside c) rest).map (prepend [.quote])
    else if isSpecial c then none
    else (lex .bare rest).map (prepend [.bare c])
  | .inside quote, c :: rest =>
    if c = quote then lex .bare rest
    else if quote = '\x22' ∧ c = '\\' then lex (.escaped (.inside quote)) rest
    else if quote = '\x22' ∧ (c = '$' ∨ c = '\x60') then none
    else (lex (.inside quote) rest).map (prepend [.quoted c])
  | .comment, c :: rest => if c = '\n' then ended rest else lex .comment rest
  | .escaped back, c :: rest => if c = '\n' then lex back rest else none

def shellWords (text : Text) : Option (List Text) := (lex .between text).map (List.map wordText)

/-! ## Assignments -/

def Letter.inName : Letter → Bool
  | .bare c => Atom.word.accepts c
  | _ => false

def isName : Text → Bool
  | [] => false
  | c :: rest => !(Atom.range [('0', '9')]).accepts c && (c :: rest).all Atom.word.accepts

def assignment (word : Word) : Option (Text × Text) :=
  let name := wordText (word.takeWhile Letter.inName)
  match word.dropWhile Letter.inName with
  | .bare c :: value => if c = '=' ∧ isName name then some (name, wordText value) else none
  | _ => none

/-- What sourcing a line assigns, provided it holds assignments only. -/
def lineAssignments (line : Text) : Option (List (Text × Text)) :=
  (lex .between line).bind (List.mapM assignment)

def assignments (text : Text) : Option (List (Text × Text)) :=
  ((text.splitOn '\n').mapM lineAssignments).map List.flatten

abbrev Env := Text → Option Text

def assign (env : Env) (made : Text × Text) : Env := Function.update env made.1 (some made.2)

/-- `. file` -/
def source (env : Env) (text : Text) : Option Env :=
  (assignments text).map fun made => made.foldl assign env

/-- The last element with a given name. -/
def lastNamed (name : α → Text) (wanted : Text) (list : List α) : Option α :=
  (list.filter fun a => name a = wanted).getLast?

/-! ## Reading characters that only stand for themselves -/

/-- Neither a gap nor a quote nor anything else the shell acts upon. -/
def isPlain (c : Char) : Bool :=
  !isGap c && c != '\n' && c != '\\' && !isQuote c && !isSpecial c

@[simp] theorem wordText_nil : wordText [] = [] := rfl

@[simp] theorem wordText_cons (letter : Letter) (word : Word) :
    wordText (letter :: word) = letter.text ++ wordText word := rfl

@[simp] theorem wordText_append (front back : Word) :
    wordText (front ++ back) = wordText front ++ wordText back := List.flatMap_append

@[simp] theorem wordText_bare (text : Text) : wordText (text.map .bare) = text := by
  induction text with
  | nil => rfl
  | cons c text ih => simp [Letter.text, ih]

@[simp] theorem wordText_quoted (text : Text) : wordText (text.map .quoted) = text := by
  induction text with
  | nil => rfl
  | cons c text ih => simp [Letter.text, ih]

@[simp] theorem prepend_prepend (front back : Word) (words : List Word) :
    prepend front (prepend back words) = prepend (front ++ back) words := by
  cases words <;> simp [prepend]

theorem lex_between_cons (c : Char) (rest : Text) : lex .between (c :: rest) =
    if isGap c then lex .between rest
    else if c = '\n' then ended rest
    else if c = '#' then lex .comment rest
    else if c = '\\' then lex (.escaped .between) rest
    else if isQuote c then (lex (.inside c) rest).map (prepend [.quote])
    else if isSpecial c then none
    else (lex .bare rest).map (prepend [.bare c]) := rfl

theorem lex_bare_cons (c : Char) (rest : Text) : lex .bare (c :: rest) =
    if isGap c then (lex .between rest).map ([] :: ·)
    else if c = '\n' then (ended rest).map ([] :: ·)
    else if c = '\\' then lex (.escaped .bare) rest
    else if isQuote c then (lex (.inside c) rest).map (prepend [.quote])
    else if isSpecial c then none
    else (lex .bare rest).map (prepend [.bare c]) := rfl

theorem lex_inside_cons (quote c : Char) (rest : Text) : lex (.inside quote) (c :: rest) =
    if c = quote then lex .bare rest
    else if quote = '\x22' ∧ c = '\\' then lex (.escaped (.inside quote)) rest
    else if quote = '\x22' ∧ (c = '$' ∨ c = '\x60') then none
    else (lex (.inside quote) rest).map (prepend [.quoted c]) := rfl

theorem lex_comment_cons (c : Char) (rest : Text) :
    lex .comment (c :: rest) = if c = '\n' then ended rest else lex .comment rest := rfl

theorem lex_escaped_cons (back : Mode) (c : Char) (rest : Text) :
    lex (.escaped back) (c :: rest) = if c = '\n' then lex back rest else none := rfl

theorem lex_bare_plain (plain : isPlain c = true) (rest : Text) :
    lex .bare (c :: rest) = (lex .bare rest).map (prepend [.bare c]) := by
  simp only [isPlain, Bool.and_eq_true, Bool.not_eq_true', bne_iff_ne] at plain
  obtain ⟨⟨⟨⟨gap, newline⟩, backslash⟩, quote⟩, special⟩ := plain
  simp [lex_bare_cons, gap, newline, backslash, quote, special]

theorem lex_between_plain (plain : isPlain c = true) (word : c ≠ '#') (rest : Text) :
    lex .between (c :: rest) = (lex .bare rest).map (prepend [.bare c]) := by
  simp only [isPlain, Bool.and_eq_true, Bool.not_eq_true', bne_iff_ne] at plain
  obtain ⟨⟨⟨⟨gap, newline⟩, backslash⟩, quote⟩, special⟩ := plain
  simp [lex_between_cons, gap, newline, backslash, quote, special, word]

theorem lex_between_gap (gap : isGap c = true) (rest : Text) :
    lex .between (c :: rest) = lex .between rest := by
  simp [lex_between_cons, gap]

theorem lex_bare_gap (gap : isGap c = true) (rest : Text) :
    lex .bare (c :: rest) = (lex .between rest).map ([] :: ·) := by
  simp [lex_bare_cons, gap]

theorem lex_continued (rest : Text) : lex .between ('\\' :: '\n' :: rest) = lex .between rest := by
  simp [lex_between_cons, lex_escaped_cons, isGap]

/-- What has no meaning outside quotes has none inside them either. -/
theorem plain_inside (quoted : isQuote quote = true) (plain : isPlain c = true ∨ c = ' ') :
    c ≠ quote ∧ c ≠ '\\' ∧ isSpecial c = false := by
  have differ : isQuote c = false ∧ c ≠ '\\' ∧ isSpecial c = false := by
    rcases plain with plain | rfl
    · simp only [isPlain, Bool.and_eq_true, Bool.not_eq_true', bne_iff_ne] at plain
      exact ⟨plain.1.2, plain.1.1.2, plain.2⟩
    · decide
  refine ⟨?_, differ.2⟩
  rintro rfl
  rw [quoted] at differ
  cases differ.1

theorem lex_bare_quote (quoted : isQuote c = true) (rest : Text) :
    lex .bare (c :: rest) = (lex (.inside c) rest).map (prepend [.quote]) := by
  have quotes : c = '\x27' ∨ c = '\x22' := by simpa [isQuote] using quoted
  rcases quotes with rfl | rfl <;> simp [lex_bare_cons, isGap, isQuote]

/-! ## Reading a word to its end -/

/-- A word is being read. -/
def Mode.inWord : Mode → Bool
  | .between => false
  | .bare => true
  | .inside _ => true
  | .comment => false
  | .escaped back => back.inWord

theorem prepend_ne_nil (front : Word) (pieces : List Word) : prepend front pieces ≠ [] := by
  cases pieces <;> simp [prepend]

/-- The word being read is never dropped. -/
theorem lex_inWord {mode : Mode} (within : mode.inWord = true) (found : lex mode text = some pieces) :
    pieces ≠ [] := by
  induction text generalizing mode pieces with
  | nil =>
    cases mode with
    | between => cases within
    | comment => cases within
    | bare =>
      cases found
      simp
    | inside quote => cases found
    | escaped back => cases found
  | cons c text ih =>
    cases mode with
    | between => cases within
    | comment => cases within
    | bare =>
      rw [lex_bare_cons] at found
      repeat' split at found
      · obtain ⟨others, -, rfl⟩ := Option.map_eq_some_iff.mp found
        simp
      · obtain ⟨others, -, rfl⟩ := Option.map_eq_some_iff.mp found
        simp
      · exact ih rfl found
      · obtain ⟨others, -, rfl⟩ := Option.map_eq_some_iff.mp found
        exact prepend_ne_nil _ others
      · cases found
      · obtain ⟨others, -, rfl⟩ := Option.map_eq_some_iff.mp found
        exact prepend_ne_nil _ others
    | inside quote =>
      rw [lex_inside_cons] at found
      repeat' split at found
      · exact ih rfl found
      · exact ih rfl found
      · cases found
      · obtain ⟨others, -, rfl⟩ := Option.map_eq_some_iff.mp found
        exact prepend_ne_nil _ others
    | escaped back =>
      rw [lex_escaped_cons] at found
      split at found
      · have beneath : back.inWord = true := within
        exact ih beneath found
      · cases found

theorem lex_prepend_nil {mode : Mode} (within : mode.inWord = true) (text : Text) :
    (lex mode text).map (prepend []) = lex mode text := by
  cases found : lex mode text with
  | none => rfl
  | some pieces =>
    obtain ⟨word, others, rfl⟩ := List.exists_cons_of_ne_nil (lex_inWord within found)
    rfl

theorem lex_bare_text (plain : ∀ c ∈ text, isPlain c = true) (rest : Text) :
    lex .bare (text ++ rest) = (lex .bare rest).map (prepend (text.map .bare)) := by
  induction text with
  | nil => exact (lex_prepend_nil rfl rest).symm
  | cons c text ih =>
    obtain ⟨here, others⟩ := List.forall_mem_cons.mp plain
    rw [List.cons_append, lex_bare_plain here, ih others, Option.map_map]
    congr 1
    funext pieces
    exact prepend_prepend [.bare c] (text.map .bare) pieces

theorem lex_between_text (start : isPlain c = true) (word : c ≠ '#')
    (plain : ∀ d ∈ text, isPlain d = true) (rest : Text) :
    lex .between (c :: text ++ rest) = (lex .bare rest).map (prepend ((c :: text).map .bare)) := by
  rw [List.cons_append, lex_between_plain start word, lex_bare_text plain, Option.map_map]
  congr 1
  funext pieces
  exact prepend_prepend [.bare c] (text.map .bare) pieces

/-- Characters that stand for themselves between any quotes. -/
theorem lex_inside_text {quote : Char} (plain : ∀ c ∈ text, c ≠ quote ∧ c ≠ '\\' ∧ isSpecial c = false)
    (rest : Text) :
    lex (.inside quote) (text ++ rest) =
      (lex (.inside quote) rest).map (prepend (text.map .quoted)) := by
  induction text with
  | nil => exact (lex_prepend_nil rfl rest).symm
  | cons c text ih =>
    obtain ⟨⟨differ, backslash, special⟩, others⟩ := List.forall_mem_cons.mp plain
    have dollar : ¬(c = '$' ∨ c = '\x60') := by
      rintro (rfl | rfl) <;> simp [isSpecial] at special
    rw [List.cons_append, lex_inside_cons, if_neg differ, if_neg (by simp [backslash]), if_neg (by tauto),
      ih others, Option.map_map]
    congr 1
    funext pieces
    exact prepend_prepend [.quoted c] (text.map .quoted) pieces

/-! ## What the words of a line say about its text -/

theorem lex_escaped_free (free : '\n' ∉ text) (back : Mode) : lex (.escaped back) text = none := by
  cases text with
  | nil => rfl
  | cons c text =>
    have differ : c ≠ '\n' := (List.ne_and_not_mem_of_not_mem_cons free).1.symm
    simp [lex_escaped_cons, differ]

theorem lex_comment_free (free : '\n' ∉ text) : lex .comment text = some [] := by
  induction text with
  | nil => rfl
  | cons c text ih =>
    obtain ⟨differ, others⟩ := List.ne_and_not_mem_of_not_mem_cons free
    rw [lex_comment_cons, if_neg differ.symm]
    exact ih others

/-- A bare letter at the start of a word was written there. -/
theorem lex_bare_letter (free : '\n' ∉ text)
    (found : lex .bare text = some ((.bare c :: word) :: pieces)) :
    ∃ rest, text = c :: rest ∧ lex .bare rest = some (word :: pieces) := by
  cases text with
  | nil =>
    have shape := Option.some.inj found
    simp at shape
  | cons d text =>
    obtain ⟨differ, others⟩ := List.ne_and_not_mem_of_not_mem_cons free
    simp only [lex_bare_cons, if_neg differ.symm, lex_escaped_free others] at found
    repeat' split at found
    · simp at found
    · cases found
    · obtain ⟨pieces, later, shape⟩ := Option.map_eq_some_iff.mp found
      obtain ⟨piece, pieces, rfl⟩ := List.exists_cons_of_ne_nil (lex_inWord rfl later)
      simp [prepend] at shape
    · cases found
    · obtain ⟨pieces, later, shape⟩ := Option.map_eq_some_iff.mp found
      obtain ⟨piece, pieces, rfl⟩ := List.exists_cons_of_ne_nil (lex_inWord rfl later)
      simp only [prepend, List.cons_append, List.nil_append, List.cons.injEq, Letter.bare.injEq] at shape
      obtain ⟨⟨rfl, rfl⟩, rfl⟩ := shape
      exact ⟨text, rfl, later⟩

theorem lex_bare_letters (free : '\n' ∉ text)
    (found : lex .bare text = some ((name.map .bare ++ word) :: pieces)) :
    ∃ rest, text = name ++ rest ∧ lex .bare rest = some (word :: pieces) := by
  induction name generalizing text with
  | nil => exact ⟨text, rfl, found⟩
  | cons c name ih =>
    obtain ⟨behind, rfl, second⟩ := lex_bare_letter free found
    obtain ⟨rest, rfl, later⟩ := ih (List.ne_and_not_mem_of_not_mem_cons free).2 second
    exact ⟨rest, rfl, later⟩

/-- A line is blank, a comment, or starts its first word behind some gaps. -/
theorem lex_between_cases (free : '\n' ∉ text) (found : lex .between text = some pieces) :
    ∃ gaps rest, text = gaps ++ rest ∧ (∀ c ∈ gaps, isGap c = true) ∧
      ((pieces = [] ∧ (rest = [] ∨ ∃ more, rest = '#' :: more)) ∨ lex .bare rest = some pieces) := by
  induction text with
  | nil => exact ⟨[], [], rfl, by simp, Or.inl ⟨(Option.some.inj found).symm, Or.inl rfl⟩⟩
  | cons c text ih =>
    obtain ⟨differ, others⟩ := List.ne_and_not_mem_of_not_mem_cons free
    by_cases gap : isGap c = true
    · rw [lex_between_gap gap] at found
      obtain ⟨gaps, rest, rfl, all, shape⟩ := ih others found
      exact ⟨c :: gaps, rest, rfl, List.forall_mem_cons.mpr ⟨gap, all⟩, shape⟩
    · by_cases comment : c = '#'
      · subst comment
        refine ⟨[], '#' :: text, rfl, by simp, Or.inl ⟨?_, Or.inr ⟨text, rfl⟩⟩⟩
        rw [lex_between_cons, if_neg gap, if_neg (by decide), if_pos rfl, lex_comment_free others] at found
        exact (Option.some.inj found).symm
      · refine ⟨[], c :: text, rfl, by simp, Or.inr ?_⟩
        simp only [lex_between_cons, lex_bare_cons, gap, differ.symm, comment, ↓reduceIte,
          lex_escaped_free others] at found ⊢
        exact found

/-! ## What a line assigns -/

theorem word_isPlain (accepted : Atom.word.accepts c = true) : isPlain c = true ∧ c ≠ '#' ∧ c ≠ '=' := by
  have refused : ([' ', '\t', '\n', '\\', '\x27', '\x22', '$', '\x60', ';', '&', '|', '<', '>',
      '(', ')', '~', '#', '='].any Atom.word.accepts) = false := by decide
  have other : ∀ d ∈ _, c ≠ d := fun d member same => by
    rw [List.any_eq_false] at refused
    exact refused d member (same ▸ accepted)
  simp only [List.forall_mem_cons] at other
  simp [isPlain, isGap, isQuote, isSpecial, other]

theorem isName_word (named : isName name = true) (c : Char) (member : c ∈ name) :
    Atom.word.accepts c = true := by
  cases name with
  | nil => cases named
  | cons d name =>
    simp only [isName, Bool.and_eq_true, List.all_eq_true] at named
    exact named.2 c member

theorem isName_equals (named : isName name = true) : '=' ∉ name :=
  fun member => (word_isPlain (isName_word named _ member)).2.2 rfl

theorem inName_bare {word : Word} (all : ∀ letter ∈ word, letter.inName = true) :
    word = (wordText word).map .bare := by
  induction word with
  | nil => rfl
  | cons letter word ih =>
    obtain ⟨here, others⟩ := List.forall_mem_cons.mp all
    cases letter with
    | bare c => simpa [Letter.text] using ih others
    | quoted c => cases here
    | quote => cases here

theorem assignment_some {word : Word} (found : assignment word = some made) :
    isName made.1 = true ∧
      ∃ rest, word = made.1.map .bare ++ .bare '=' :: rest ∧ made.2 = wordText rest := by
  simp only [assignment] at found
  split at found
  · rename_i c value shape
    split at found
    · rename_i equals
      obtain ⟨rfl, named⟩ := equals
      cases found
      refine ⟨named, value, ?_, rfl⟩
      have bare : ∀ letter ∈ word.takeWhile Letter.inName, letter.inName = true :=
        fun letter member => List.mem_takeWhile_imp member
      rw [← inName_bare bare, ← shape, List.takeWhile_append_dropWhile]
    · cases found
  · cases found

theorem assignment_named (named : isName name = true) (rest : Word) :
    assignment (name.map .bare ++ .bare '=' :: rest) = some (name, wordText rest) := by
  have bare : ∀ letter ∈ name.map Letter.bare, letter.inName = true := by
    intro letter member
    obtain ⟨c, held, rfl⟩ := List.mem_map.mp member
    exact isName_word named c held
  have stops : (Letter.bare '=').inName = false := by decide
  simp [assignment, List.takeWhile_append_of_pos bare, List.dropWhile_append_of_pos bare, stops, named]

/-- A name at the start of a line is assigned the first word behind its `=`. -/
theorem lineAssignments_start (named : isName name = true)
    (lexed : lex .bare text = some (word :: others)) :
    lineAssignments (name ++ '=' :: text) =
      (others.mapM assignment).map ((name, wordText word) :: ·) := by
  have front : lex .between (name ++ '=' :: text) =
      some ((name.map .bare ++ .bare '=' :: word) :: others) := by
    cases name with
    | nil => cases named
    | cons c name =>
      obtain ⟨here, later⟩ := List.forall_mem_cons.mp (isName_word named)
      obtain ⟨start, comment, -⟩ := word_isPlain here
      have equals : lex .bare ('=' :: text) = some ((.bare '=' :: word) :: others) := by
        rw [lex_bare_plain (by decide), lexed]
        rfl
      rw [lex_between_text start comment (fun d member => (word_isPlain (later d member)).1), equals]
      rfl
  rw [lineAssignments, front, Option.bind_some, List.mapM_cons, assignment_named named]
  cases others.mapM assignment <;> rfl

theorem lineAssignments_comment (free : '\n' ∉ text) : lineAssignments ('#' :: text) = some [] := by
  simp [lineAssignments, lex, isGap, lex_comment_free free]

/-- A line that can be sourced is blank, a comment, or assigns to the name
behind its gaps first. -/
theorem lineAssignments_cases (free : '\n' ∉ line) (found : lineAssignments line = some made) :
    ∃ gaps rest, line = gaps ++ rest ∧ (∀ c ∈ gaps, isGap c = true) ∧
      ((made = [] ∧ (rest = [] ∨ ∃ more, rest = '#' :: more)) ∨
        ∃ name text word others later, rest = name ++ '=' :: text ∧ isName name = true ∧
          lex .bare text = some (word :: others) ∧ others.mapM assignment = some later ∧
          made = (name, wordText word) :: later) := by
  obtain ⟨pieces, lexed, read⟩ := Option.bind_eq_some_iff.mp found
  obtain ⟨gaps, rest, rfl, all, shape⟩ := lex_between_cases free lexed
  refine ⟨gaps, rest, rfl, all, ?_⟩
  rcases shape with ⟨rfl, nothing⟩ | bare
  · exact Or.inl ⟨(Option.some.inj read).symm, nothing⟩
  · right
    obtain ⟨first, others, rfl⟩ := List.exists_cons_of_ne_nil (lex_inWord rfl bare)
    rw [List.mapM_cons] at read
    obtain ⟨head, assigned, read⟩ := Option.bind_eq_some_iff.mp read
    obtain ⟨later, rest_read, read⟩ := Option.bind_eq_some_iff.mp read
    cases read
    obtain ⟨named, value, rfl, meaning⟩ := assignment_some assigned
    have rest_free : '\n' ∉ rest := fun member => free (List.mem_append_right gaps member)
    obtain ⟨behind, rfl, second⟩ := lex_bare_letters rest_free bare
    have behind_free : '\n' ∉ behind := fun member => rest_free (List.mem_append_right _ member)
    obtain ⟨text, rfl, third⟩ := lex_bare_letter behind_free second
    exact ⟨head.1, text, value, others, later, rfl, named, third, rest_read, by rw [← meaning]⟩

theorem lineAssignments_named (found : lineAssignments line = some made) (member : one ∈ made) :
    isName one.1 = true := by
  obtain ⟨pieces, -, read⟩ := Option.bind_eq_some_iff.mp found
  have among : some one ∈ pieces.map assignment := by
    rw [map_of_mapM read]
    exact List.mem_map_of_mem member
  obtain ⟨word, -, assigned⟩ := List.mem_map.mp among
  exact (assignment_some assigned).1

theorem assignments_line (found : assignments text = some made) (member : line ∈ text.splitOn '\n') :
    ∃ here, lineAssignments line = some here ∧ ∀ one ∈ here, one ∈ made := by
  obtain ⟨lists, read, rfl⟩ := Option.map_eq_some_iff.mp found
  have among : lineAssignments line ∈ lists.map some := by
    rw [← map_of_mapM read]
    exact List.mem_map_of_mem member
  obtain ⟨here, held, meaning⟩ := List.mem_map.mp among
  exact ⟨here, meaning.symm, fun one inside => List.mem_flatten.mpr ⟨here, held, inside⟩⟩

/-- A text whose lines are rewritten lines of another. -/
theorem assignments_lines {text origin : Text} {write : Text → Text} {meaning : Text → List (Text × Text)}
    (lines : text.splitOn '\n' = (origin.splitOn '\n').map write)
    (each : ∀ line ∈ origin.splitOn '\n', lineAssignments (write line) = some (meaning line)) :
    assignments text = some ((origin.splitOn '\n').flatMap meaning) := by
  rw [assignments, lines, mapM_map_some each]
  rfl

/-! ## The environment after sourcing -/

theorem lastNamed_append (name : α → Text) (wanted : Text) (left right : List α) :
    lastNamed name wanted (left ++ right) =
      (lastNamed name wanted right).or (lastNamed name wanted left) := by
  simp [lastNamed, List.getLast?_append]

theorem lastNamed_map {name : β → Text} {key : α → Text} {change : α → β}
    (same : ∀ a, name (change a) = key a) (wanted : Text) (list : List α) :
    lastNamed name wanted (list.map change) = (lastNamed key wanted list).map change := by
  simp [lastNamed, List.filter_map, Function.comp_def, same]

theorem lastNamed_mem {list : List α} {label : α → Text} (found : lastNamed label wanted list = some a) :
    a ∈ list ∧ label a = wanted := by
  have member := List.mem_filter.mp (List.mem_of_getLast? found)
  exact ⟨member.1, by simpa using member.2⟩

theorem foldl_assign (made : List (Text × Text)) (env : Env) (name : Text) :
    (made.foldl assign env) name =
      ((lastNamed Prod.fst name made).map Prod.snd).or (env name) := by
  induction made using List.reverseRecOn with
  | nil => rfl
  | append_singleton made last ih =>
    rw [List.foldl_append, lastNamed_append]
    by_cases same : last.1 = name
    · subst same
      simp [assign, lastNamed]
    · simp [assign, lastNamed, same, Function.update_of_ne (Ne.symm same), ih]

/-- Two series of assignments do the same in every environment if and only if
every name gets the same last value. -/
theorem foldl_assign_eq_iff {left right : List (Text × Text)} :
    (∀ env, left.foldl assign env = right.foldl assign env) ↔
      ∀ name, (lastNamed Prod.fst name left).map Prod.snd =
        (lastNamed Prod.fst name right).map Prod.snd := by
  constructor
  · intro agree name
    have here := congrFun (agree fun _ => none) name
    simpa [foldl_assign] using here
  · intro agree env
    funext name
    rw [foldl_assign, foldl_assign, agree]

end Fdgw.ShellWords
