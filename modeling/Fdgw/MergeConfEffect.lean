import Fdgw.MergeConfProofs

/-! The variables a router comes up with after the merge, compared with those
the model itself would have set. -/
namespace Fdgw.MergeConf
open Patterns TextLines ShellWords

/-! ## One substitution -/

/-- The letters and digits a text starts with give way to a value. -/
def overwrite (value text : Text) : Text := value ++ text.dropWhile Atom.alnum.accepts

theorem substitution_hit (x : Text × Text) (text : Text) :
    substitute (substitution x).1 (substitution x).2 (x.1 ++ '=' :: text) =
      x.1 ++ '=' :: overwrite (content x.2) text := by
  have shape : x.1 ++ '=' :: text = (x.1 ++ ['=']) ++ text := by simp
  unfold substitute substitution
  rw [shape, matchPrefix_literally, matchPrefix_many]
  simp [overwrite]

theorem substitution_miss {x : Text × Text} {line : Text} (other : ¬(x.1 ++ ['=']) <+: line) :
    substitute (substitution x).1 (substitution x).2 line = line := by
  have differs : (x.1 ++ ['=']).isPrefixOf line = false := by
    rw [← Bool.not_eq_true, List.isPrefixOf_iff_prefix]
    exact other
  unfold substitute substitution
  rw [matchPrefix_literally_none differs]

theorem substitution_onLine (setting : Setting x) : OnLine (substitution x).1 := by
  apply onLine_append
  · apply onLine_literally
    have names : '\n' ∉ x.1 := fun member => absurd (setting.name '\n' member) (by decide)
    simp [names]
  · intro item member
    cases List.mem_singleton.mp member
    decide

/-! ## One line -/

variable {xs : List (Text × Text)} {name text line : Text}

/-- The values that settings give a name, in their order. -/
def valuesFor (xs : List (Text × Text)) (name : Text) : List Text :=
  (xs.filter fun x => x.1 = name).map fun x => content x.2

/-- Each value in turn takes the place of the letters and digits in front. -/
def overwritten (values : List Text) (text : Text) : Text :=
  values.foldl (fun text value => overwrite value text) text

theorem edit_cons (x : Text × Text) (xs : List (Text × Text)) (line : Text) :
    edit ((x :: xs).map substitution) line =
      edit (xs.map substitution) (substitute (substitution x).1 (substitution x).2 line) := rfl

theorem edit_untouched (others : ∀ x ∈ xs, ¬(x.1 ++ ['=']) <+: line) :
    edit (xs.map substitution) line = line := by
  induction xs with
  | nil => rfl
  | cons x xs ih =>
    obtain ⟨here, later⟩ := List.forall_mem_cons.mp others
    rw [edit_cons, substitution_miss here, ih later]

theorem name_of_start {other : Text} (free : '=' ∉ name) (plain : '=' ∉ other)
    (front : (other ++ ['=']) <+: name ++ '=' :: text) : other = name := by
  obtain ⟨rest, shape⟩ := front
  have pieces := congrArg (List.splitOn '=') shape
  rw [List.append_assoc, List.singleton_append, List.splitOn_append_cons_self_of_not_mem plain,
    List.splitOn_append_cons_self_of_not_mem free] at pieces
  exact (List.cons.inj pieces).1

theorem Setting.equals (setting : Setting x) : '=' ∉ x.1 :=
  fun member => (ordinary_isPlain (setting.name _ member)).2.1 rfl

/-- An assignment at the start of a line is overwritten by the settings of its
name, and nothing else of the line changes. -/
theorem edit_start (settings : ∀ x ∈ xs, Setting x) (free : '=' ∉ name) (text : Text) :
    edit (xs.map substitution) (name ++ '=' :: text) =
      name ++ '=' :: overwritten (valuesFor xs name) text := by
  induction xs generalizing text with
  | nil => rfl
  | cons x xs ih =>
    obtain ⟨setting, settings⟩ := List.forall_mem_cons.mp settings
    rw [edit_cons]
    by_cases same : x.1 = name
    · subst same
      rw [substitution_hit, ih settings]
      simp [valuesFor, overwritten]
    · have miss : ¬(x.1 ++ ['=']) <+: name ++ '=' :: text :=
        fun front => same (name_of_start free setting.equals front)
      rw [substitution_miss miss, ih settings]
      simp [valuesFor, same]

theorem edit_comment (xs : List (Text × Text)) (text : Text) :
    ∃ rest, edit (xs.map substitution) ('#' :: text) = '#' :: rest := by
  induction xs generalizing text with
  | nil => exact ⟨text, rfl⟩
  | cons x xs ih =>
    rw [edit_cons]
    by_cases front : (x.1 ++ ['=']) <+: '#' :: text
    · obtain ⟨rest, shape⟩ := front
      rw [List.append_assoc, List.singleton_append] at shape
      rw [← shape, substitution_hit]
      cases name : x.1 with
      | nil => simp [name] at shape
      | cons c more =>
        rw [name] at shape
        cases (List.cons.inj shape).1
        exact ih _
    · rw [substitution_miss front]
      exact ih text

theorem edit_gap (settings : ∀ x ∈ xs, Setting x) (gap : isGap c = true) (text : Text) :
    edit (xs.map substitution) (c :: text) = c :: text := by
  apply edit_untouched
  intro x member front
  obtain ⟨rest, shape⟩ := front
  have plain : isPlain c = true := by
    cases name : x.1 with
    | nil =>
      rw [name] at shape
      cases (List.cons.inj shape).1
      decide
    | cons d more =>
      rw [name] at shape
      cases (List.cons.inj shape).1
      exact (ordinary_isPlain ((settings x member).name c (by simp [name]))).1
  simp [isPlain, gap] at plain

/-! ## All lines -/

theorem edit_line (settings : ∀ x ∈ xs, Setting x) (front more : Text) :
    edit (xs.map substitution) (front ++ '\n' :: more) =
      edit (xs.map substitution) front ++ '\n' :: more := by
  induction xs generalizing front with
  | nil => rfl
  | cons x xs ih =>
    obtain ⟨setting, settings⟩ := List.forall_mem_cons.mp settings
    rw [edit_cons, edit_cons, substitute_line (substitution_onLine setting), ih settings]

theorem edit_free (settings : ∀ x ∈ xs, Setting x) (free : '\n' ∉ line) :
    '\n' ∉ edit (xs.map substitution) line := by
  induction xs generalizing line with
  | nil => exact free
  | cons x xs ih =>
    obtain ⟨setting, settings⟩ := List.forall_mem_cons.mp settings
    rw [edit_cons]
    apply ih settings
    by_cases front : (x.1 ++ ['=']) <+: line
    · obtain ⟨rest, rfl⟩ := front
      simp only [List.mem_append, List.mem_singleton, not_or] at free
      have value : '\n' ∉ content x.2 :=
        fun member => absurd (setting.value _ member) (by decide)
      have kept : '\n' ∉ rest.dropWhile Atom.alnum.accepts :=
        fun member => free.2 ((List.dropWhile_suffix _).subset member)
      rw [List.append_assoc, List.singleton_append, substitution_hit]
      simp [overwrite, free.1.1, value, kept]
    · rw [substitution_miss front]
      exact free

/-- The lines of what the merge writes are the edited lines of the defaults. -/
theorem sed_lines (settings : ∀ x ∈ xs, Setting x) (defaults : Text) :
    (sed (xs.map substitution) defaults).splitOn '\n' =
      (defaults.splitOn '\n').map (edit (xs.map substitution)) := by
  have empty : edit (xs.map substitution) [] = [] := by
    apply edit_untouched
    intro x member front
    simp at front
  have agree : ∀ segment ∈ defaults.splitOn '\n', ∀ ending, ending = [] ∨ ending = ['\n'] →
      edit (xs.map substitution) (segment ++ ending) =
        edit (xs.map substitution) segment ++ ending := by
    rintro segment member ending (rfl | rfl)
    · simp
    · exact edit_line settings segment []
  rw [sed, flatten_map_readLines empty agree]
  apply splitOn_intercalate_map
  intro segment member
  exact edit_free settings (splitOn_free member)

/-! ## Places of assignment -/

/-- The value of the word that a text starts with. -/
def firstWord (text : Text) : Text :=
  match lex .bare text with
  | some (word :: _) => wordText word
  | _ => []

/-- An assignment of a sourced file, and, if it starts its line, the text
behind its `=`. -/
structure Place where
  name : Text
  value : Text
  behind : Option Text
  deriving DecidableEq, Repr

def placesOf (line : Text) : List Place :=
  match lineAssignments line with
  | some (first :: later) =>
    ⟨first.1, first.2, if (first.1 ++ ['=']).isPrefixOf line then some (line.drop (first.1.length + 1))
      else none⟩ :: later.map fun made => ⟨made.1, made.2, none⟩
  | _ => []

def places (text : Text) : List Place := (text.splitOn '\n').flatMap placesOf

/-- What the assignment gives its name once settings have overwritten it. -/
def Place.merged (xs : List (Text × Text)) (place : Place) : Text :=
  match place.behind with
  | none => place.value
  | some text => firstWord (overwritten (valuesFor xs place.name) text)

theorem alnum_word (accepted : Atom.alnum.accepts c = true) : Atom.word.accepts c = true := by
  simp only [Atom.alnum, Atom.word, Atom.accepts, List.any_cons] at accepted ⊢
  simp only [List.any_nil, Bool.or_false, Bool.or_eq_true] at accepted ⊢
  tauto

theorem lex_overwrite {value : Text} (valued : ∀ c ∈ value, isValueChar c = true)
    (lexed : lex .bare text = some (word :: others)) :
    ∃ changed, lex .bare (overwrite value text) = some (changed :: others) := by
  have alnum : ∀ c ∈ text.takeWhile Atom.alnum.accepts, isPlain c = true := by
    intro c member
    have accepted : Atom.alnum.accepts c = true := List.mem_takeWhile_imp member
    exact (word_isPlain (alnum_word accepted)).1
  have halves : text.takeWhile Atom.alnum.accepts ++ text.dropWhile Atom.alnum.accepts = text :=
    List.takeWhile_append_dropWhile
  rw [← halves, lex_bare_text alnum] at lexed
  obtain ⟨pieces, kept, shape⟩ := Option.map_eq_some_iff.mp lexed
  obtain ⟨piece, rest, rfl⟩ := List.exists_cons_of_ne_nil (lex_inWord rfl kept)
  cases (List.cons.inj shape).2
  refine ⟨value.map .bare ++ piece, ?_⟩
  rw [overwrite, lex_bare_text fun c member => valueChar_isPlain (valued c member), kept]
  rfl

theorem lex_overwritten {values : List Text} (valued : ∀ value ∈ values, ∀ c ∈ value, isValueChar c = true)
    (lexed : lex .bare text = some (word :: others)) :
    ∃ changed, lex .bare (overwritten values text) = some (changed :: others) := by
  induction values generalizing text word with
  | nil => exact ⟨word, lexed⟩
  | cons value values ih =>
    obtain ⟨here, later⟩ := List.forall_mem_cons.mp valued
    obtain ⟨changed, lexed⟩ := lex_overwrite here lexed
    exact ih later lexed

/-- An assignment that does not start its line. -/
def inner (made : Text × Text) : Place := ⟨made.1, made.2, none⟩

theorem firstWord_lex (lexed : lex .bare text = some (word :: others)) :
    firstWord text = wordText word := by
  rw [firstWord, lexed]

theorem gap_not_start (named : isName name = true) (gap : isGap c = true) (text : Text) :
    (name ++ ['=']).isPrefixOf (c :: text) = false := by
  cases name with
  | nil => cases named
  | cons d rest =>
    have differ : d ≠ c := by
      rintro rfl
      have plain := (word_isPlain (isName_word named d List.mem_cons_self)).1
      simp [isPlain, gap] at plain
    simp [List.isPrefixOf, differ]

theorem placesOf_start (named : isName name = true) (lexed : lex .bare text = some (word :: others))
    (read : others.mapM assignment = some later) :
    placesOf (name ++ '=' :: text) = ⟨name, wordText word, some text⟩ :: later.map inner := by
  have front : (name ++ ['=']).isPrefixOf (name ++ '=' :: text) = true := by
    rw [List.isPrefixOf_iff_prefix]
    exact ⟨text, by simp⟩
  have rest : (name ++ '=' :: text).drop (name.length + 1) = text := by
    rw [← List.drop_drop, List.drop_left]
    rfl
  rw [placesOf, lineAssignments_start named lexed, read]
  simp only [Option.map_some, front, rest, ↓reduceIte]
  rfl

/-- Only an assignment in front of everything else on its line is behind nothing. -/
theorem placesOf_cases (free : '\n' ∉ line) (found : lineAssignments line = some made) :
    (placesOf line = made.map inner ∧
      (line = [] ∨ (∃ c text, isGap c = true ∧ line = c :: text) ∨
        (made = [] ∧ ∃ text, line = '#' :: text))) ∨
    ∃ name text word others later, isName name = true ∧ line = name ++ '=' :: text ∧
      lex .bare text = some (word :: others) ∧ others.mapM assignment = some later ∧
      made = (name, wordText word) :: later := by
  obtain ⟨gaps, rest, rfl, all, shape⟩ := lineAssignments_cases free found
  rcases shape with ⟨rfl, nothing⟩ | ⟨name, text, word, others, later, rfl, named, lexed, read, rfl⟩
  · left
    refine ⟨by rw [placesOf, found]; rfl, ?_⟩
    cases gaps with
    | nil =>
      rcases nothing with rfl | ⟨more, rfl⟩
      · exact Or.inl rfl
      · exact Or.inr (Or.inr ⟨rfl, more, rfl⟩)
    | cons c gaps =>
      exact Or.inr (Or.inl ⟨c, gaps ++ rest, all c List.mem_cons_self, rfl⟩)
  · cases gaps with
    | nil => exact Or.inr ⟨name, text, word, others, later, named, rfl, lexed, read, rfl⟩
    | cons c gaps =>
      have gap : isGap c = true := all c List.mem_cons_self
      refine Or.inl ⟨?_, Or.inr (Or.inl ⟨c, _, gap, rfl⟩)⟩
      rw [placesOf, found]
      simp only [List.cons_append, gap_not_start named gap]
      rfl

theorem placesOf_made (found : lineAssignments line = some made) :
    (placesOf line).map (fun p => (p.name, p.value)) = made := by
  rw [placesOf, found]
  cases made with
  | nil => rfl
  | cons first later => simp [Function.comp_def]

theorem merged_inner (xs : List (Text × Text)) (made : List (Text × Text)) :
    (made.map inner).map (fun p => (p.name, p.merged xs)) = made := by
  simp [Function.comp_def, inner, Place.merged]

/-- An edited line assigns to the same names, with the merged values. -/
theorem lineAssignments_edit (settings : ∀ x ∈ xs, Setting x) (free : '\n' ∉ line)
    (found : lineAssignments line = some made) :
    lineAssignments (edit (xs.map substitution) line) =
      some ((placesOf line).map fun p => (p.name, p.merged xs)) := by
  rcases placesOf_cases free found with
    ⟨all, rfl | ⟨c, text, gap, rfl⟩ | ⟨rfl, text, rfl⟩⟩ |
      ⟨name, text, word, others, later, named, rfl, lexed, read, rfl⟩
  · rw [all, merged_inner, edit_untouched, found]
    intro x member front
    simp at front
  · rw [all, merged_inner, edit_gap settings gap, found]
  · have kept := edit_free settings free
    obtain ⟨rest, shape⟩ := edit_comment xs text
    rw [shape] at kept ⊢
    rw [all, merged_inner, lineAssignments_comment (List.ne_and_not_mem_of_not_mem_cons kept).2]
  · have valued : ∀ value ∈ valuesFor xs name, ∀ c ∈ value, isValueChar c = true := by
      intro value member
      obtain ⟨x, held, rfl⟩ := List.mem_map.mp member
      exact (settings x (List.mem_of_mem_filter held)).value
    obtain ⟨changed, relexed⟩ := lex_overwritten valued lexed
    rw [edit_start settings (isName_equals named), placesOf_start named lexed read,
      lineAssignments_start named relexed, read, List.map_cons, merged_inner, Option.map_some,
      ← firstWord_lex relexed]
    rfl

/-- An assignment to a name without settings keeps its value. -/
theorem merged_unset {place : Place} (free : '\n' ∉ line) (found : lineAssignments line = some made)
    (member : place ∈ placesOf line) (unset : valuesFor xs place.name = []) :
    place.merged xs = place.value := by
  rcases placesOf_cases free found with
    ⟨all, -⟩ | ⟨name, text, word, others, later, named, rfl, lexed, read, rfl⟩
  · rw [all] at member
    obtain ⟨assigned, -, rfl⟩ := List.mem_map.mp member
    rfl
  · rw [placesOf_start named lexed read] at member
    rcases List.mem_cons.mp member with rfl | member
    · rw [Place.merged, unset]
      exact firstWord_lex lexed
    · obtain ⟨assigned, -, rfl⟩ := List.mem_map.mp member
      rfl

/-! ## Whole files -/

variable {defaults model : Text}

theorem assignments_places (found : assignments defaults = some made) :
    made = (places defaults).map fun p => (p.name, p.value) := by
  have each : ∀ line ∈ defaults.splitOn '\n', lineAssignments (id line) =
      some ((placesOf line).map fun p => (p.name, p.value)) := by
    intro line member
    obtain ⟨here, read, -⟩ := assignments_line found member
    rw [id, placesOf_made read, read]
  rw [assignments_lines (List.map_id _).symm each] at found
  cases found
  rw [places, List.map_flatMap]

/-- What the merge writes assigns to the names of the defaults, in their order. -/
theorem assignments_merged (settings : ∀ x ∈ xs, Setting x) (found : assignments defaults = some made) :
    assignments (sed (xs.map substitution) defaults) =
      some ((places defaults).map fun p => (p.name, p.merged xs)) := by
  have each : ∀ line ∈ defaults.splitOn '\n', lineAssignments (edit (xs.map substitution) line) =
      some ((placesOf line).map fun p => (p.name, p.merged xs)) := by
    intro line member
    obtain ⟨here, read, -⟩ := assignments_line found member
    exact lineAssignments_edit settings (splitOn_free member) read
  rw [assignments_lines (sed_lines settings defaults) each, places, List.map_flatMap]

/-! ## The names of the settings -/

theorem splitOn_first {word : Text} (free : '=' ∉ word) (more : Text) :
    ∃ rest, ((word ++ more).splitOn '=').headD [] = word ++ rest := by
  by_cases equals : '=' ∈ more
  · obtain ⟨front, back, rfl, before⟩ := List.eq_append_cons_of_mem equals
    refine ⟨front, ?_⟩
    rw [← List.append_assoc, List.splitOn_append_cons_self_of_not_mem (by simp [free, before])]
    rfl
  · refine ⟨more, ?_⟩
    rw [List.splitOn_eq_singleton (by simp [free, equals])]
    rfl

theorem gap_isBlank (gap : isGap c = true) : isBlank c = true ∧ c ≠ '=' := by
  have gaps : c = ' ' ∨ c = '\t' := by simpa [isGap] using gap
  rcases gaps with rfl | rfl <;> decide

theorem plain_visible (plain : isPlain c = true) : isBlank c = false := by
  cases blank : isBlank c with
  | false => rfl
  | true =>
    have blanks : c = ' ' ∨ c = '\t' ∨ c = '\n' := by simpa [isBlank] using blank
    rcases blanks with rfl | rfl | rfl <;> exact absurd plain (by decide)

theorem splitFirst_start {gaps word : Text} (all : ∀ c ∈ gaps, isGap c = true) (held : word ≠ [])
    (visible : word.any isBlank = false) (rest : Text) :
    ∃ more, (splitFirst (gaps ++ (word ++ rest))).1 = ((word ++ more).splitOn '=').headD [] := by
  obtain ⟨more, others, first⟩ := fields_first held visible rest
  refine ⟨more, ?_⟩
  rw [splitFirst, fields_gaps fun c member => (gap_isBlank (all c member)).1, first]
  rfl

/-- A line with a `=` sets its first name, or is a comment. -/
theorem splitFirst_name (free : '\n' ∉ line) (equals : '=' ∈ line)
    (found : lineAssignments line = some made) :
    (∃ rest, (splitFirst line).1 = '#' :: rest) ∨ ∃ value, ((splitFirst line).1, value) ∈ made := by
  obtain ⟨gaps, rest, rfl, all, shape⟩ := lineAssignments_cases free found
  rcases shape with ⟨rfl, rfl | ⟨more, rfl⟩⟩ | ⟨name, text, word, others, later, rfl, named, -, -, rfl⟩
  · rw [List.append_nil] at equals
    exact absurd rfl (gap_isBlank (all '=' equals)).2
  · left
    have visible : ['#'].any isBlank = false := by decide
    obtain ⟨field, first⟩ := splitFirst_start all (List.cons_ne_nil '#' []) visible more
    have hash : '=' ∉ ['#'] := by decide
    obtain ⟨rest, shape⟩ := splitOn_first hash field
    exact ⟨rest, first.trans shape⟩
  · right
    have visible : (name ++ ['=']).any isBlank = false := by
      rw [List.any_eq_false]
      intro c member
      rw [Bool.not_eq_true]
      rcases List.mem_append.mp member with member | member
      · exact plain_visible (word_isPlain (isName_word named c member)).1
      · cases List.mem_singleton.mp member
        decide
    obtain ⟨field, first⟩ := splitFirst_start all (by simp) visible text
    rw [List.append_assoc, List.append_assoc, List.singleton_append, List.singleton_append,
      List.splitOn_append_cons_self_of_not_mem (isName_equals named), List.headD_cons] at first
    exact ⟨wordText word, by rw [first]; exact List.mem_cons_self⟩

/-- Settings of a name are assignments of the model. -/
theorem valuesFor_assigned (found : assignments model = some made) (named : isName name = true)
    (set : valuesFor (settings model) name ≠ []) : ∃ value, (name, value) ∈ made := by
  obtain ⟨value, member⟩ := List.exists_mem_of_ne_nil _ set
  obtain ⟨x, held, -⟩ := List.mem_map.mp member
  obtain ⟨inside, same⟩ := List.mem_filter.mp held
  obtain ⟨line, kept, rfl⟩ := List.mem_map.mp inside
  obtain ⟨segment, equals⟩ := List.mem_filter.mp kept
  obtain ⟨here, read, among⟩ := assignments_line found segment
  have same : (splitFirst line).1 = name := by simpa using same
  rcases splitFirst_name (splitOn_free segment) (by simpa using equals) read with
    ⟨rest, comment⟩ | ⟨value, assigned⟩
  · rw [same] at comment
    subst comment
    simp [isName, Atom.accepts, Atom.word] at named
  · rw [same] at assigned
    exact ⟨value, among _ assigned⟩

/-! ## Agreement -/

/-- A name the model does not assign keeps the value of the defaults. -/
theorem merged_unassigned {place : Place} (readable : assignments defaults = some loaded)
    (found : assignments model = some made) (unset : lastNamed Prod.fst place.name made = none)
    (member : place ∈ places defaults) : place.merged (settings model) = place.value := by
  obtain ⟨line, segment, inside⟩ := List.mem_flatMap.mp member
  obtain ⟨here, read, -⟩ := assignments_line readable segment
  have assigned : (place.name, place.value) ∈ here := by
    rw [← placesOf_made read]
    exact List.mem_map_of_mem inside
  apply merged_unset (splitOn_free segment) read inside
  by_contra set
  obtain ⟨value, among⟩ := valuesFor_assigned found (lineAssignments_named read assigned) set
  rw [lastNamed, List.getLast?_eq_none_iff, List.filter_eq_nil_iff] at unset
  exact unset _ among (by simp)

/-- Every name the model assigns to has its last assignment in the defaults at
a place where the merge gives it the value of the model. -/
def Survives (defaults model : Text) : Prop :=
  ∀ made, assignments model = some made →
    ∀ name value, (lastNamed Prod.fst name made).map Prod.snd = some value →
      ∃ place, lastNamed Place.name name (places defaults) = some place ∧
        place.merged (settings model) = value

/-- The last values of a name after the defaults and the merged file, and after
the defaults and the model. -/
theorem lastNamed_agree (readable : assignments defaults = some loaded)
    (found : assignments model = some made) (name : Text) :
    (lastNamed Prod.fst name (loaded ++ (places defaults).map fun p =>
        (p.name, p.merged (settings model)))).map Prod.snd =
      (lastNamed Prod.fst name (loaded ++ made)).map Prod.snd ↔
    ∀ value, (lastNamed Prod.fst name made).map Prod.snd = some value →
      ∃ place, lastNamed Place.name name (places defaults) = some place ∧
        place.merged (settings model) = value := by
  have before : lastNamed Prod.fst name loaded =
      (lastNamed Place.name name (places defaults)).map fun p => (p.name, p.value) := by
    rw [assignments_places readable]
    exact lastNamed_map (fun _ => rfl) name _
  have after : lastNamed Prod.fst name ((places defaults).map fun p =>
      (p.name, p.merged (settings model))) =
      (lastNamed Place.name name (places defaults)).map fun p =>
        (p.name, p.merged (settings model)) := lastNamed_map (fun _ => rfl) name _
  rw [lastNamed_append, lastNamed_append, before, after]
  cases place : lastNamed Place.name name (places defaults) with
  | none => cases lastNamed Prod.fst name made <;> simp
  | some here =>
    cases last : lastNamed Prod.fst name made with
    | some one => simp
    | none =>
      obtain ⟨member, rfl⟩ := lastNamed_mem place
      simp [merged_unassigned readable found last member]

theorem agrees_accepted (other : Text → Ran) (readable : assignments defaults = some loaded)
    (modelled : assignments model = some made) (shipped : Shipped model)
    (accepted : ∀ x ∈ settings model, ¬Refused x) :
    Agrees other defaults model ↔ Survives defaults model := by
  have merged := assignments_merged shipped.all readable
  calc Agrees other defaults model
    _ ↔ ∀ env, (loaded ++ (places defaults).map fun p =>
          (p.name, p.merged (settings model))).foldl assign env =
        (loaded ++ made).foldl assign env := by
      simp [Agrees, sh_accepted shipped accepted, loadConf, source, readable, modelled, merged]
    _ ↔ ∀ name, (lastNamed Prod.fst name (loaded ++ (places defaults).map fun p =>
          (p.name, p.merged (settings model)))).map Prod.snd =
        (lastNamed Prod.fst name (loaded ++ made)).map Prod.snd := foldl_assign_eq_iff
    _ ↔ Survives defaults model := by
      simp only [lastNamed_agree readable modelled, Survives, modelled, Option.some.injEq,
        forall_eq']

/-- The merge loses no setting of a model exactly if the program it generates
is refused or every name the model assigns to survives in the defaults. -/
theorem merge_agrees_iff (other : Text → Ran) (defaults model : Text)
    (readable : (assignments defaults).isSome) (modelled : (assignments model).isSome)
    (shipped : Shipped model) : Agrees other defaults model ↔
      (∃ x ∈ settings model, Refused x) ∨ Survives defaults model := by
  obtain ⟨loaded, readable⟩ := Option.isSome_iff_exists.mp readable
  obtain ⟨made, modelled⟩ := Option.isSome_iff_exists.mp modelled
  by_cases refused : ∃ x ∈ settings model, Refused x
  · have nothing := sh_refused shipped refused other defaults
    simp [Agrees, nothing, refused]
  · have accepted : ∀ x ∈ settings model, ¬Refused x := by simpa using refused
    rw [or_iff_right refused]
    exact agrees_accepted other readable modelled shipped accepted

/-- Lines of the shipped defaults and of the models `proxybox` and `mcastrouter6`. -/
def shippedDefaults : Text :=
  "ftp_proxy=no\nhttp_proxy=no\nssh_proxy=no\n\nroute6d=no\t\troute6d_flags=\"\"\n".toList

def proxybox : Text :=
  "http_proxy=yes\nftp_proxy=yes\nhttp_proxy=yes\nssh_proxy=yes\nssh_proxy=yes\n".toList

def mcastrouter6 : Text :=
  "# route6d \nroute6d=yes             route6d_flags=\"-A 2001:240:22::/48,gif0\"\n".toList

theorem shipped_of_chars (some : settings model ≠ []) (all : ((settings model).all fun x =>
    x.1.all isOrdinary && (content x.2).all isValueChar) = true) : Shipped model := by
  simp only [List.all_eq_true, Bool.and_eq_true] at all
  exact ⟨some, fun x member => ⟨(all x member).1, (all x member).2⟩⟩

theorem merge_agrees_proxybox : sh (fun _ => .failed) shippedDefaults (mergeConf proxybox) ≠ .failed ∧
    Agrees (fun _ => .failed) shippedDefaults proxybox := by
  have shipped : Shipped proxybox := shipped_of_chars (by decide +kernel) (by decide +kernel)
  have each : ∀ made ∈ assignments proxybox, ∀ one ∈ made, lastNamed Prod.fst one.1 made = some one →
      (lastNamed Place.name one.1 (places shippedDefaults)).map (Place.merged (settings proxybox)) =
        some one.2 := by
    decide +kernel
  refine ⟨by decide +kernel, (merge_agrees_iff (fun _ => .failed) shippedDefaults proxybox
    (by decide +kernel) (by decide +kernel) shipped).mpr (Or.inr ?_)⟩
  intro made found name value assigned
  obtain ⟨one, last, rfl⟩ := Option.map_eq_some_iff.mp assigned
  obtain ⟨member, rfl⟩ := lastNamed_mem last
  exact Option.map_eq_some_iff.mp (each made found one member last)

/-- The flags that `mcastrouter6` sets behind `route6d` do not reach the image. -/
theorem second_assignment_lost :
    (assignments shippedDefaults).isSome ∧ (assignments mcastrouter6).isSome ∧
      ¬Agrees (fun _ => .failed) shippedDefaults mcastrouter6 := by
  have readable : (assignments shippedDefaults).isSome := by decide +kernel
  have modelled : (assignments mcastrouter6).isSome := by decide +kernel
  refine ⟨readable, modelled, ?_⟩
  have shipped : Shipped mcastrouter6 := shipped_of_chars (by decide +kernel) (by decide +kernel)
  have fine : ∀ x ∈ settings mcastrouter6, opened x.2 = false ∧ '/' ∉ content x.2 := by decide +kernel
  have wanted : ∀ made ∈ assignments mcastrouter6,
      (lastNamed Prod.fst "route6d_flags".toList made).map Prod.snd =
        some "-A 2001:240:22::/48,gif0".toList := by decide +kernel
  have kept : (lastNamed Place.name "route6d_flags".toList (places shippedDefaults)).map
      (Place.merged (settings mcastrouter6)) = some [] := by decide +kernel
  obtain ⟨loaded, readable⟩ := Option.isSome_iff_exists.mp readable
  obtain ⟨made, modelled⟩ := Option.isSome_iff_exists.mp modelled
  rw [agrees_accepted _ readable modelled shipped fun x member => by simp [Refused, fine x member]]
  intro survives
  obtain ⟨place, last, merged⟩ := survives made modelled _ _ (wanted made modelled)
  rw [last, Option.map_some, merged] at kept
  exact absurd kept (by decide)

end Fdgw.MergeConf
