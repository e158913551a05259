import Fdgw.KernelConfig

/-! The generated program means what its two lists say: `eval` reads back one
statement per entry, the statements together comment out or uncomment a line at
most once, and enabling wins. -/
namespace Fdgw.KernelConfig
open Patterns TextLines

/-! ## The program text is read back -/

def disableStatement (entry : Text) : Statement :=
  ⟨[], ['#'], [[.one .word], inOrder (splitSpace entry)]⟩

def enableStatement (entry : Text) : Statement :=
  ⟨[.one (.lit '#')], [], [.one (.lit '#') :: inOrder (splitSpace entry)]⟩

theorem strip_append (word text : Text) : strip word (word ++ text) = some text := by
  simpa [strip, matchPrefix] using matchPrefix_literally word [] text

private theorem word_ne {c d : Char} (word : Atom.word.accepts c = true)
    (other : Atom.word.accepts d = false) : c ≠ d := by
  rintro rfl
  simp [word] at other

private theorem readRegexp_char {c : Char} (word : Atom.word.accepts c = true) (matched : Pattern)
    (rest : Text) : readRegexp matched (c :: rest) = readRegexp (.one (.lit c) :: matched) rest := by
  have slash : c ≠ '/' := word_ne word (by decide)
  have star : c ≠ '*' := word_ne word (by decide)
  have backslash : c ≠ '\\' := word_ne word (by decide)
  have dot : c ≠ '.' := word_ne word (by decide)
  rw [readRegexp.eq_def]
  split
  · simp_all
  · simp_all
  · simp_all
  · simp_all
  · rename_i shape
    cases shape
    rw [if_pos word]
  · simp_all

private theorem readRegexp_escape {c : Char} (other : Atom.word.accepts c = false)
    (matched : Pattern) (rest : Text) :
    readRegexp matched ('\\' :: c :: rest) = readRegexp (.one (.lit c) :: matched) rest := by
  have notW : c ≠ 'w' := by
    rintro rfl
    exact absurd other (by decide)
  rw [readRegexp.eq_def]
  simp [escaped, notW, other]

/-- What `quotemeta` wrote is read as the literal text. -/
theorem readRegexp_quotemeta (text : Text) (matched : Pattern) (rest : Text) :
    readRegexp matched (quotemeta text ++ rest) =
      readRegexp ((literally text).reverse ++ matched) rest := by
  induction text generalizing matched with
  | nil => rfl
  | cons c text ih =>
    simp only [quotemeta, List.flatMap_cons, List.append_assoc] at ih ⊢
    split
    · rename_i word
      refine (readRegexp_char word matched _).trans ?_
      simpa using ih (.one (.lit c) :: matched)
    · rename_i other
      refine (readRegexp_escape (by simpa using other) matched _).trans ?_
      simpa using ih (.one (.lit c) :: matched)

/-- The regular expression of an entry is read as its words in order. -/
theorem readRegexp_entry (entry : Text) (matched : Pattern) (rest : Text) :
    readRegexp matched (entryRegexp entry ++ '/' :: rest) =
      some (matched.reverse ++ inOrder (splitSpace entry), rest) := by
  unfold entryRegexp
  generalize splitSpace entry = tokens
  induction tokens generalizing matched with
  | nil => simp [readRegexp, inOrder]
  | cons word tokens ih =>
    have read : readRegexp matched (".*".toList ++ quotemeta word ++
        ((tokens.flatMap fun e => ".*".toList ++ quotemeta e) ++ '/' :: rest)) =
        readRegexp ((literally word).reverse ++ .many .dot :: matched)
          ((tokens.flatMap fun e => ".*".toList ++ quotemeta e) ++ '/' :: rest) := by
      rw [List.append_assoc, ← readRegexp_quotemeta]
      rfl
    rw [List.flatMap_cons, List.append_assoc, read, ih]
    simp [inOrder]

/-- The two statements as they stand in the program, without their line's tab
and newline. -/
def disableText (entry : Text) : Text :=
  "s/^/\\#/ if /^\\w/ &&/^".toList ++ entryRegexp entry ++ "/;".toList

def enableText (entry : Text) : Text :=
  "s/^\\#// if /^\\#".toList ++ entryRegexp entry ++ "/;".toList

private theorem readGuards_disable (entry : Text) (fuel : Nat) :
    readGuards (fuel + 2) ("/^\\w/ &&/^".toList ++ entryRegexp entry ++ "/;".toList) =
      some [[.one .word], inOrder (splitSpace entry)] := by
  have second : readGuards (fuel + 1) ("/^".toList ++ (entryRegexp entry ++ "/;".toList)) =
      some [inOrder (splitSpace entry)] := by
    rw [readGuards, strip_append]
    have read := readRegexp_entry entry [] [';']
    simp only [List.reverse_nil, List.nil_append] at read
    simp [read]
  have first : "/^\\w/ &&/^".toList ++ entryRegexp entry ++ "/;".toList =
      "/^".toList ++ ("\\w/".toList ++ (" &&".toList ++
        ("/^".toList ++ (entryRegexp entry ++ "/;".toList)))) := by
    simp
  rw [first, readGuards, strip_append]
  have word : ∀ rest, readRegexp [] ("\\w/".toList ++ rest) = some ([.one .word], rest) := by
    intro rest
    simp [readRegexp, escaped]
  simp only [word, Option.bind_eq_bind, Option.bind_some, strip_append, second]
  rw [if_neg (by simp)]

theorem readStatement_disable (entry : Text) :
    readStatement (disableText entry) = some (disableStatement entry) := by
  have shape : disableText entry =
      "s/^".toList ++ ("/".toList ++ ("\\#/".toList ++ (" if ".toList ++
        ("/^\\w/ &&/^".toList ++ entryRegexp entry ++ "/;".toList)))) := by
    unfold disableText
    simp
  have target : ∀ rest, readRegexp [] ("/".toList ++ rest) = some ([], rest) := by
    intro rest
    simp [readRegexp]
  have replacement : ∀ rest, readReplacement ("\\#/".toList ++ rest) = some (['#'], rest) := by
    intro rest
    have other : Atom.word.accepts '#' = false := by decide
    simp [readReplacement, other]
  have long : ∃ fuel, ("/^\\w/ &&/^".toList ++ entryRegexp entry ++ "/;".toList).length = fuel + 2 :=
    ⟨("/^\\w/ &&/^".toList ++ entryRegexp entry).length, by simp⟩
  obtain ⟨fuel, long⟩ := long
  rw [shape, readStatement, strip_append]
  simp only [Option.bind_eq_bind, Option.bind_some, target, replacement, strip_append, long,
    readGuards_disable]
  rfl

theorem readStatement_enable (entry : Text) :
    readStatement (enableText entry) = some (enableStatement entry) := by
  have shape : enableText entry =
      "s/^".toList ++ ("\\#/".toList ++ ("/".toList ++ (" if ".toList ++
        ("/^".toList ++ ("\\#".toList ++ (entryRegexp entry ++ "/;".toList)))))) := by
    unfold enableText
    simp
  have other : Atom.word.accepts '#' = false := by decide
  have hash : ∀ matched rest, readRegexp matched ("\\#".toList ++ rest) =
      readRegexp (.one (.lit '#') :: matched) rest := by
    intro matched rest
    exact readRegexp_escape other matched rest
  have target : ∀ rest, readRegexp [] ("\\#/".toList ++ rest) =
      some ([.one (.lit '#')], rest) := by
    intro rest
    have close : readRegexp [.one (.lit '#')] ('/' :: rest) = some ([.one (.lit '#')], rest) := by
      simp [readRegexp]
    exact (hash [] ('/' :: rest)).trans close
  have replacement : ∀ rest, readReplacement ("/".toList ++ rest) = some ([], rest) := by
    intro rest
    simp [readReplacement]
  have guards : ∀ fuel, readGuards (fuel + 1) ("/^".toList ++ ("\\#".toList ++
      (entryRegexp entry ++ "/;".toList))) =
      some [.one (.lit '#') :: inOrder (splitSpace entry)] := by
    intro fuel
    rw [readGuards, strip_append]
    have read := readRegexp_entry entry [.one (.lit '#')] [';']
    simp only [Option.bind_eq_bind, Option.bind_some, hash]
    have same : "/;".toList = '/' :: [';'] := rfl
    simp only [same, read]
    simp
  have long : ∃ fuel, ("/^".toList ++ ("\\#".toList ++ (entryRegexp entry ++ "/;".toList))).length =
      fuel + 1 := ⟨(("\\#".toList ++ (entryRegexp entry ++ "/;".toList))).length + 1, by simp⟩
  obtain ⟨fuel, long⟩ := long
  rw [shape, readStatement, strip_append]
  simp only [Option.bind_eq_bind, Option.bind_some, target, replacement, strip_append, long, guards]
  rfl

theorem significant_append (text more : Text) :
    significant (text ++ '\n' :: more) = significant text ++ significant more := by
  simp [significant, List.splitOn_eq_splitOnP, List.splitOnP_append_cons]

private theorem quotemeta_free (free : '\n' ∉ text) : '\n' ∉ quotemeta text := by
  intro member
  obtain ⟨c, held, written⟩ := List.mem_flatMap.mp member
  have differ : '\n' ≠ c := by
    rintro rfl
    exact free held
  split at written <;> simp_all

theorem splitSpace_free (member : word ∈ splitSpace text) : '\n' ∉ word := by
  have known : word = [] ∨ word ∈ words text := by
    unfold splitSpace at member
    split at member
    · cases member
    · split at member
      · exact List.mem_cons.mp member
      · exact Or.inr member
  rcases known with rfl | known
  · simp
  · exact fields_free known '\n' rfl

private theorem entryRegexp_free (entry : Text) : '\n' ∉ entryRegexp entry := by
  intro member
  obtain ⟨word, held, written⟩ := List.mem_flatMap.mp member
  rcases List.mem_append.mp written with written | written
  · exact absurd written (by decide)
  · exact quotemeta_free (splitSpace_free held) written

/-- A statement on a line of its own is read as it stands. -/
private theorem significant_statement (free : '\n' ∉ text) :
    significant ('\t' :: 's' :: text) = ['s' :: text] := by
  have single : ('\t' :: 's' :: text).splitOn '\n' = ['\t' :: 's' :: text] :=
    List.splitOn_eq_singleton (by simp [free])
  simp [significant, single, List.dropWhile]

private theorem significant_generated {line statement : Text → Text}
    (shape : ∀ entry, ∃ tail, '\n' ∉ tail ∧ statement entry = 's' :: tail ∧
      line entry = '\t' :: statement entry ++ ['\n']) (list : List Text) (rest : Text) :
    significant (list.flatMap line ++ rest) = list.map statement ++ significant rest := by
  induction list with
  | nil => simp
  | cons entry list ih =>
    obtain ⟨tail, free, starts, written⟩ := shape entry
    have next : (entry :: list).flatMap line ++ rest =
        ('\t' :: 's' :: tail) ++ '\n' :: (list.flatMap line ++ rest) := by
      simp [written, starts]
    rw [next, significant_append, significant_statement free, ih, List.map_cons, starts]
    rfl

private theorem disable_shape (entry : Text) : ∃ tail, '\n' ∉ tail ∧
    disableText entry = 's' :: tail ∧ disableLine entry = '\t' :: disableText entry ++ ['\n'] := by
  unfold disableLine disableText
  refine ⟨"/^/\\#/ if /^\\w/ &&/^".toList ++ entryRegexp entry ++ "/;".toList, ?_, by simp, by simp⟩
  simp [entryRegexp_free]

private theorem enable_shape (entry : Text) : ∃ tail, '\n' ∉ tail ∧
    enableText entry = 's' :: tail ∧ enableLine entry = '\t' :: enableText entry ++ ['\n'] := by
  unfold enableLine enableText
  refine ⟨"/^\\#// if /^\\#".toList ++ entryRegexp entry ++ "/;".toList, ?_, by simp, by simp⟩
  simp [entryRegexp_free]

private theorem significant_program (disable enable : Text) :
    significant (program disable enable) = "while (<$fh>) \x7b".toList ::
      ((entries disable).map disableText ++ (entries enable).map enableText ++
        ["print;".toList, "\x7d".toList]) := by
  have shape : program disable enable =
      "\n\twhile (<$fh>) \x7b\n\t    \n\n\t# disable".toList ++ '\n' ::
        ((entries disable).flatMap disableLine ++ ("\n\t# enable".toList ++ '\n' ::
          ((entries enable).flatMap enableLine ++ ";\n\t    print;\n\t\x7d\n    ".toList))) := by
    unfold program regexp
    simp
  have opening : significant "\n\twhile (<$fh>) \x7b\n\t    \n\n\t# disable".toList =
      ["while (<$fh>) \x7b".toList] := by decide +kernel
  have between : significant "\n\t# enable".toList = [] := by decide +kernel
  have closing : significant ";\n\t    print;\n\t\x7d\n    ".toList =
      ["print;".toList, "\x7d".toList] := by decide +kernel
  rw [shape, significant_append, significant_generated disable_shape, significant_append,
    significant_generated enable_shape, opening, between, closing]
  simp

/-- What `eval` sees: a statement per disable entry, then one per enable entry. -/
theorem readProgram_program (disable enable : Text) : readProgram (program disable enable) =
    some ((entries disable).map disableStatement ++ (entries enable).map enableStatement) := by
  have statements : ((entries disable).map disableText ++ (entries enable).map enableText).mapM
      readStatement =
      some ((entries disable).map disableStatement ++ (entries enable).map enableStatement) := by
    rw [List.mapM_append, mapM_map_some fun entry _ => readStatement_disable entry,
      mapM_map_some fun entry _ => readStatement_enable entry]
    rfl
  unfold readProgram
  rw [significant_program]
  simp only [List.length_append, List.length_cons, List.length_nil]
  rw [if_pos ⟨trivial, List.drop_left' (by simp)⟩, List.take_left' (by simp)]
  exact statements

/-! ## What the statements do to one line -/

def active (line : Text) : Bool := line.head? ≠ some '#'

/-- The line without one leading `#`. -/
def body : Text → Text
  | '#' :: rest => rest
  | line => line

def startsWord (line : Text) : Bool := line.head?.any Atom.word.accepts

/-- The entry's tokens occur in the text in order and without overlap. -/
def EntryMatches (entry text : Text) : Prop := InOrder (words entry) text

def SomeMatches (list : List Text) (text : Text) : Prop := ∃ entry ∈ list, EntryMatches entry text

/-- What becomes of a line: its body, active where the lists say so. -/
def Enabled (disable enable : List Text) (line : Text) : Prop :=
  SomeMatches enable (body line) ∨
    (active line = true ∧ ¬(startsWord line = true ∧ SomeMatches disable line))

open Classical in
noncomputable def settled (disable enable : List Text) (line : Text) : Text :=
  if Enabled disable enable line then body line else '#' :: body line

theorem body_hash (rest : Text) : body ('#' :: rest) = rest := rfl

theorem startsWord_hash (rest : Text) : startsWord ('#' :: rest) = false := rfl

theorem body_inactive (hashed : active line = false) : '#' :: body line = line := by
  cases line with
  | nil => exact absurd hashed (by decide)
  | cons c rest =>
    have same : c = '#' := by simpa [active] using hashed
    rw [same, body_hash]

/-- The ends a line read from a file can have. -/
def Ending (ending : Text) : Prop := ending = [] ∨ ending = ['\n']

theorem inOrder_splitSpace : InOrder (splitSpace entry) text ↔ EntryMatches entry text := by
  unfold splitSpace EntryMatches
  split
  · rename_i none
    rw [none]
  · split
    · constructor
      · rintro ⟨before, after, rfl, later⟩
        simpa using later.prepend before
      · intro found
        exact ⟨[], text, rfl, found⟩
    · exact Iff.rfl

theorem guard_matches (free : '\n' ∉ text) (ending : Ending tail) :
    matchesAtStart (inOrder (splitSpace entry)) (text ++ tail) = true ↔ EntryMatches entry text := by
  rw [← inOrder_splitSpace]
  rcases ending with rfl | rfl
  · rw [List.append_nil]
    exact matchesAtStart_inOrder free
  · exact matchesAtStart_inOrder_line (fun word member => splitSpace_free member) free

private theorem word_guard (ending : Ending tail) :
    matchesAtStart [.one .word] (text ++ tail) = startsWord text := by
  cases text with
  | nil => rcases ending with rfl | rfl <;> decide
  | cons c text =>
    cases word : Atom.word.accepts c <;> simp [matchesAtStart, matchPrefix, startsWord, word]

open Classical in
theorem run_disable (free : '\n' ∉ text) (ending : Ending tail) :
    (disableStatement entry).run (text ++ tail) =
      (if startsWord text = true ∧ EntryMatches entry text then '#' :: text else text) ++ tail := by
  have guards : ((disableStatement entry).guards.all fun guard => matchesAtStart guard (text ++ tail))
      = true ↔ startsWord text = true ∧ EntryMatches entry text := by
    simp [disableStatement, word_guard ending, guard_matches free ending]
  by_cases matched : startsWord text = true ∧ EntryMatches entry text
  · rw [Statement.run, if_pos (guards.mpr matched), if_pos matched]
    rfl
  · rw [Statement.run, if_neg (mt guards.mp matched), if_neg matched]

open Classical in
theorem run_enable (free : '\n' ∉ text) (ending : Ending tail) :
    (enableStatement entry).run (text ++ tail) =
      (if active text = false ∧ EntryMatches entry (body text) then body text else text) ++ tail := by
  have guards : ((enableStatement entry).guards.all fun guard => matchesAtStart guard (text ++ tail))
      = true ↔ active text = false ∧ EntryMatches entry (body text) := by
    simp only [enableStatement, List.all_cons, List.all_nil, Bool.and_true]
    cases text with
    | nil => rcases ending with rfl | rfl <;> simp [matchesAtStart, matchPrefix, Atom.accepts, active]
    | cons c text =>
      obtain ⟨-, clean⟩ := List.ne_and_not_mem_of_not_mem_cons free
      by_cases hash : c = '#'
      · subst hash
        have inner : matchesAtStart (inOrder (splitSpace entry)) (text ++ tail) = true ↔
            EntryMatches entry text := guard_matches clean ending
        simpa [matchesAtStart, matchPrefix, Atom.accepts, active, body] using inner
      · have other : '#' ≠ c := Ne.symm hash
        simp [matchesAtStart, matchPrefix, Atom.accepts, active, hash, other]
  by_cases matched : active text = false ∧ EntryMatches entry (body text)
  · rw [Statement.run, if_pos (guards.mpr matched), if_pos matched]
    cases text with
    | nil => exact absurd matched.1 (by decide)
    | cons c text =>
      have hash : c = '#' := by simpa [active] using matched.1
      subst hash
      rfl
  · rw [Statement.run, if_neg (mt guards.mp matched), if_neg matched]

/-! ## All statements together -/

theorem runStatements_append (first second : List Statement) (line : Text) :
    runStatements (first ++ second) line = runStatements second (runStatements first line) := by
  simp [runStatements]

theorem someMatches_cons : SomeMatches (entry :: list) text ↔
    EntryMatches entry text ∨ SomeMatches list text := by
  simp [SomeMatches]

open Classical in
/-- Once a `#` is in front, no later disable entry adds another. -/
theorem runStatements_disable (free : '\n' ∉ text) (ending : Ending tail) :
    runStatements (list.map disableStatement) (text ++ tail) =
      (if startsWord text = true ∧ SomeMatches list text then '#' :: text else text) ++ tail := by
  induction list generalizing text with
  | nil => simp [runStatements, SomeMatches]
  | cons entry list ih =>
    simp only [runStatements, List.map_cons, List.foldl_cons] at ih ⊢
    rw [run_disable free ending]
    by_cases matched : startsWord text = true ∧ EntryMatches entry text
    · have hashed : ¬(startsWord ('#' :: text) = true ∧ SomeMatches list ('#' :: text)) := by
        simp [startsWord_hash]
      rw [if_pos matched, ih (by simp [free]), if_neg hashed,
        if_pos ⟨matched.1, someMatches_cons.mpr (Or.inl matched.2)⟩]
    · have later : (startsWord text = true ∧ SomeMatches list text) ↔
          (startsWord text = true ∧ SomeMatches (entry :: list) text) := by
        rw [someMatches_cons]
        grind
      rw [if_neg matched, ih free, if_congr later rfl rfl]

end Fdgw.KernelConfig
