import Fdgw.Patterns

/-! Text as the line tools read it: newline-terminated lines, the words of a
line, and words occurring one after the other in a text. -/
namespace Fdgw.TextLines
open Patterns

/-! ## Lines -/

/-- The lines of a text with their newlines; the last one may lack it. -/
def readLines : Text → List Text
  | [] => []
  | c :: rest =>
    if c = '\n' then [c] :: readLines rest
    else match readLines rest with
      | [] => [[c]]
      | line :: lines => (c :: line) :: lines

/-- Perl's `chomp`. -/
def chomp (line : Text) : Text := if line.getLast? = some '\n' then line.dropLast else line

/-- Texts are built from a newline-free rest by putting terminated lines in
front of it. -/
theorem lines_induction {motive : Text → Prop} (last : ∀ rest, '\n' ∉ rest → motive rest)
    (line : ∀ front more, '\n' ∉ front → motive more → motive (front ++ '\n' :: more))
    (text : Text) : motive text := by
  by_cases newline : '\n' ∈ text
  · obtain ⟨front, more, shape, free⟩ := List.eq_append_cons_of_mem newline
    have shorter : more.length < text.length := by
      rw [shape, List.length_append, List.length_cons]
      omega
    rw [shape]
    exact line front more free (lines_induction last line more)
  · exact last text newline
termination_by text.length

theorem readLines_last (free : '\n' ∉ rest) (held : rest ≠ []) : readLines rest = [rest] := by
  induction rest with
  | nil => exact absurd rfl held
  | cons c rest ih =>
    obtain ⟨differ, free⟩ := List.ne_and_not_mem_of_not_mem_cons free
    rw [readLines, if_neg differ.symm]
    cases rest with
    | nil => rfl
    | cons d rest => rw [ih free (List.cons_ne_nil d rest)]

theorem readLines_line (free : '\n' ∉ front) (more : Text) :
    readLines (front ++ '\n' :: more) = (front ++ ['\n']) :: readLines more := by
  induction front with
  | nil => simp [readLines]
  | cons c front ih =>
    obtain ⟨differ, free⟩ := List.ne_and_not_mem_of_not_mem_cons free
    rw [List.cons_append, readLines, if_neg differ.symm, ih free]
    rfl

theorem readLines_shape (source : Text) : ∀ line ∈ readLines source,
    ∃ text tail, line = text ++ tail ∧ '\n' ∉ text ∧ (tail = [] ∨ tail = ['\n']) := by
  induction source using lines_induction with
  | last rest free =>
    intro line member
    by_cases empty : rest = []
    · subst empty
      cases member
    · rw [readLines_last free empty] at member
      cases List.mem_singleton.mp member
      exact ⟨rest, [], by simp, free, Or.inl rfl⟩
  | line front more free ih =>
    intro line member
    rw [readLines_line free] at member
    rcases List.mem_cons.mp member with rfl | member
    · exact ⟨front, ['\n'], rfl, free, Or.inr rfl⟩
    · exact ih line member

theorem splitOn_free {text segment : Text} (member : segment ∈ text.splitOn '\n') : '\n' ∉ segment := by
  induction text using lines_induction with
  | last rest free =>
    rw [List.splitOn_eq_singleton free] at member
    cases List.mem_singleton.mp member
    exact free
  | line front more free ih =>
    rw [List.splitOn_append_cons_self_of_not_mem free] at member
    rcases List.mem_cons.mp member with rfl | member
    · exact free
    · exact ih member

/-- A filter that handles the lines of a text one by one and leaves their
terminators alone maps the newline-separated segments of the text. -/
theorem flatten_map_readLines {text : Text} {filter meaning : Text → Text} (empty : meaning [] = [])
    (agree : ∀ segment ∈ text.splitOn '\n', ∀ ending, ending = [] ∨ ending = ['\n'] →
      filter (segment ++ ending) = meaning segment ++ ending) :
    ((readLines text).map filter).flatten =
      ['\n'].intercalate ((text.splitOn '\n').map meaning) := by
  induction text using lines_induction with
  | last rest free =>
    rw [List.splitOn_eq_singleton free] at agree ⊢
    have here := agree rest (List.mem_singleton_self rest) [] (Or.inl rfl)
    simp only [List.append_nil] at here
    by_cases held : rest = []
    · subst held
      simp [readLines, empty]
    · simp [readLines_last free held, here]
  | line front more free ih =>
    rw [List.splitOn_append_cons_self_of_not_mem free] at agree ⊢
    obtain ⟨here, others⟩ := List.forall_mem_cons.mp agree
    have some : (more.splitOn '\n').map meaning ≠ [] := by
      simp [List.splitOn_eq_splitOnP, List.splitOnP_ne_nil]
    rw [readLines_line free, List.map_cons, List.flatten_cons, ih others, List.map_cons,
      List.intercalate_cons_of_ne_nil some, here _ (Or.inr rfl)]

theorem splitOn_intercalate_map {text : Text} {meaning : Text → Text}
    (free : ∀ segment ∈ text.splitOn '\n', '\n' ∉ meaning segment) :
    (['\n'].intercalate ((text.splitOn '\n').map meaning)).splitOn '\n' =
      (text.splitOn '\n').map meaning := by
  apply List.splitOn_intercalate
  · intro segment member
    obtain ⟨source, held, rfl⟩ := List.mem_map.mp member
    exact free source held
  · simp [List.splitOn_eq_splitOnP, List.splitOnP_ne_nil]

/-- Reading back what was written for every element of a list. -/
theorem mapM_map_some {read : β → Option γ} {write : α → β} {meaning : α → γ} {list : List α}
    (back : ∀ a ∈ list, read (write a) = some (meaning a)) :
    (list.map write).mapM read = some (list.map meaning) := by
  induction list with
  | nil => rfl
  | cons a list ih =>
    obtain ⟨here, others⟩ := List.forall_mem_cons.mp back
    simp [here, ih others]

theorem map_of_mapM {read : α → Option β} {list : List α} (found : list.mapM read = some results) :
    list.map read = results.map some := by
  induction list generalizing results with
  | nil =>
    cases found
    rfl
  | cons a list ih =>
    rw [List.mapM_cons] at found
    obtain ⟨first, here, found⟩ := Option.bind_eq_some_iff.mp found
    obtain ⟨others, later, found⟩ := Option.bind_eq_some_iff.mp found
    cases found
    rw [List.map_cons, List.map_cons, here, ih later]

/-! ## Fields and words -/

/-- The maximal runs of characters that are not separators. -/
def fields (separator : Char → Bool) (text : Text) : List Text :=
  (text.splitOnP separator).filter (· ≠ [])

/-- The characters of Perl's `\s` and of `isspace`, the vertical tab apart. -/
def isSpace (c : Char) : Bool := c ∈ [' ', '\t', '\n', '\r', '\x0c']

theorem space_accepts (c : Char) : Atom.space.accepts c = isSpace c := by
  have same : ∀ d : Char, (d.val ≤ c.val ∧ c.val ≤ d.val) ↔ c = d := by
    intro d
    constructor
    · rintro ⟨below, above⟩
      exact Char.ext (UInt32.le_antisymm above below)
    · rintro rfl
      exact ⟨UInt32.le_refl _, UInt32.le_refl _⟩
  rw [Bool.eq_iff_iff]
  simp only [Atom.space, Atom.accepts, isSpace, List.any_cons, List.any_nil, Bool.or_false,
    Bool.or_eq_true, Bool.and_eq_true, decide_eq_true_eq, same, List.mem_cons, List.not_mem_nil,
    or_false]

def words (text : Text) : List Text := fields isSpace text

/-- What `awk` splits the fields of a record at. -/
def isBlank (c : Char) : Bool := c ∈ [' ', '\t', '\n']

theorem fields_free (member : word ∈ fields separator text) (c : Char) (space : separator c = true) :
    c ∉ word := by
  have kept : word ∈ text.splitOnP separator := (List.mem_filter.mp member).1
  clear member
  induction text generalizing word with
  | nil =>
    rw [List.splitOnP_nil] at kept
    cases List.mem_singleton.mp kept
    simp
  | cons d text ih =>
    rw [List.splitOnP_cons_eq_if_modifyHead] at kept
    split at kept
    · rcases List.mem_cons.mp kept with rfl | kept
      · simp
      · exact ih kept
    · rename_i visible
      cases pieces : text.splitOnP separator with
      | nil => exact absurd pieces (List.splitOnP_ne_nil _ _)
      | cons first others =>
        rw [pieces] at kept ih
        rcases List.mem_cons.mp kept with rfl | kept
        · refine List.not_mem_cons_of_ne_of_not_mem ?_ (ih List.mem_cons_self)
          rintro rfl
          exact visible space
        · exact ih (List.mem_cons_of_mem _ kept)

theorem fields_word {separator : Char → Bool} {word : Text} (held : word ≠ [])
    (free : word.any separator = false) (space : separator c = true) (rest : Text) :
    fields separator (word ++ c :: rest) = word :: fields separator rest := by
  have visible : ∀ c ∈ word, separator c = false := by simpa using free
  rw [fields, List.splitOnP_append_cons_of_forall_mem visible c space,
    List.filter_cons_of_pos (by simpa)]
  rfl

theorem fields_gaps {separator : Char → Bool} (gaps : ∀ c ∈ front, separator c = true) (rest : Text) :
    fields separator (front ++ rest) = fields separator rest := by
  induction front with
  | nil => rfl
  | cons c front ih =>
    obtain ⟨here, others⟩ := List.forall_mem_cons.mp gaps
    rw [List.cons_append, fields, List.splitOnP_cons_eq_if_modifyHead, if_pos here,
      List.filter_cons_of_neg (by simp)]
    exact ih others

/-- A text that starts with separator-free characters has a first field that does. -/
theorem fields_first {separator : Char → Bool} {word : Text} (held : word ≠ [])
    (free : word.any separator = false) (rest : Text) :
    ∃ more others, fields separator (word ++ rest) = (word ++ more) :: others := by
  have pieces : ∃ more others, (word ++ rest).splitOnP separator = (word ++ more) :: others := by
    clear held
    induction word with
    | nil =>
      obtain ⟨more, others, shape⟩ := List.exists_cons_of_ne_nil (List.splitOnP_ne_nil separator rest)
      exact ⟨more, others, by simpa using shape⟩
    | cons c word ih =>
      obtain ⟨here, free⟩ := Bool.or_eq_false_iff.mp free
      obtain ⟨more, others, shape⟩ := ih free
      refine ⟨more, others, ?_⟩
      rw [List.cons_append, List.splitOnP_cons_eq_if_modifyHead, if_neg (by simp [here]), shape]
      rfl
  obtain ⟨more, others, shape⟩ := pieces
  refine ⟨more, others.filter (· ≠ []), ?_⟩
  rw [fields, shape, List.filter_cons_of_pos (by simp [held])]

/-! ## Words in order -/

/-- The words occur in the text one after the other without overlap. -/
def InOrder : List Text → Text → Prop
  | [], _ => True
  | word :: rest, text => ∃ before after, text = before ++ word ++ after ∧ InOrder rest after

/-- `.*w1.*w2…` -/
def inOrder (tokens : List Text) : Pattern :=
  tokens.flatMap fun word => .many .dot :: literally word

theorem matches_inOrder {tokens : List Text} {text : Text} (free : '\n' ∉ text) :
    (∃ front rest, text = front ++ rest ∧ Matches (inOrder tokens) front) ↔ InOrder tokens text := by
  induction tokens generalizing text with
  | nil =>
    constructor
    · intro _
      trivial
    · intro _
      exact ⟨[], text, rfl, rfl⟩
  | cons word tokens ih =>
    simp only [inOrder, List.flatMap_cons, List.cons_append] at ih ⊢
    constructor
    · rintro ⟨front, rest, rfl, before, matched, rfl, dots, member⟩
      obtain ⟨after, shape, inner⟩ := matches_literally_append.mp member
      subst shape
      refine ⟨before, after ++ rest, by simp, ?_⟩
      exact (ih (by simp_all)).mp ⟨after, rest, rfl, inner⟩
    · rintro ⟨before, after, rfl, later⟩
      obtain ⟨front, rest, rfl, member⟩ := (ih (by simp_all)).mpr later
      have tail : Matches (literally word ++ tokens.flatMap fun word => .many .dot :: literally word)
          (word ++ front) := matches_literally_append.mpr ⟨front, rfl, member⟩
      refine ⟨before ++ (word ++ front), rest, by simp, before, word ++ front, rfl, ?_, tail⟩
      intro c held
      have differ : c ≠ '\n' := by
        rintro rfl
        simp [held] at free
      simp [Atom.accepts, differ]

/-- Matching from the start of a newline-free text is finding the words in order. -/
theorem matchesAtStart_inOrder (free : '\n' ∉ text) :
    matchesAtStart (inOrder tokens) text = true ↔ InOrder tokens text :=
  matchesAtStart_iff.trans (matches_inOrder free)

theorem InOrder.prepend (before : Text) (found : InOrder tokens text) :
    InOrder tokens (before ++ text) := by
  cases tokens with
  | nil => trivial
  | cons word tokens =>
    obtain ⟨front, after, rfl, later⟩ := found
    exact ⟨before ++ front, after, by simp, later⟩

theorem onLine_inOrder {tokens : List Text} (plain : ∀ word ∈ tokens, '\n' ∉ word) :
    OnLine (inOrder tokens) := by
  intro item member
  obtain ⟨word, held, written⟩ := List.mem_flatMap.mp member
  rcases List.mem_cons.mp written with rfl | written
  · rfl
  · obtain ⟨c, inside, rfl⟩ := List.mem_map.mp written
    have differ : c ≠ '\n' := by
      rintro rfl
      exact plain word held inside
    simpa [Item.atom, Atom.accepts] using differ

/-- A line's terminator makes no difference to words in order. -/
theorem matchesAtStart_inOrder_line {tokens : List Text} {text : Text}
    (plain : ∀ word ∈ tokens, '\n' ∉ word) (free : '\n' ∉ text) :
    matchesAtStart (inOrder tokens) (text ++ ['\n']) = true ↔ InOrder tokens text := by
  rw [← matchesAtStart_inOrder free, matchesAtStart, matchPrefix_line (onLine_inOrder plain),
    Option.isSome_map, matchesAtStart]

end Fdgw.TextLines
