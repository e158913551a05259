import Mathlib.Data.List.Basic
import Mathlib.Data.List.Infix
import Mathlib.Data.List.TakeWhile

/-! Line patterns in the common core of `sed`, `awk`, `grep` and Perl: a
sequence of one-character tests, each taken once or repeated greedily, matched
from a fixed position with backtracking. `Matches` is the language of a
pattern; `matchPrefix` finds a match and leaves what follows it. -/
namespace Fdgw.Patterns

abbrev Text := List Char

/-- One-character tests: a literal, `.` (anything but a newline), or a set of
ranges as in `[A-Za-z0-9]`. -/
inductive Atom where
  | lit (c : Char)
  | dot
  | range (ranges : List (Char × Char))
  deriving DecidableEq, Repr

def Atom.accepts : Atom → Char → Bool
  | .lit c, d => c == d
  | .dot, d => d != '\n'
  | .range ranges, d => ranges.any fun r => r.1.val ≤ d.val && d.val ≤ r.2.val

/-- `[A-Za-z0-9]`, and Perl's `\w` and `\s` on bytes. -/
def Atom.alnum : Atom := .range [('A', 'Z'), ('a', 'z'), ('0', '9')]
def Atom.word : Atom := .range [('A', 'Z'), ('a', 'z'), ('0', '9'), ('_', '_')]
def Atom.space : Atom :=
  .range [(' ', ' '), ('\t', '\t'), ('\n', '\n'), ('\r', '\r'), ('\x0c', '\x0c')]

inductive Item where
  | one (a : Atom)
  | many (a : Atom)
  deriving DecidableEq, Repr

abbrev Pattern := List Item

/-- The pattern that matches exactly `text`. -/
def literally (text : Text) : Pattern := text.map fun c => .one (.lit c)

/-- Take as many accepted characters as the continuation allows. -/
def greedy (a : Atom) (next : Text → Option Text) : Text → Option Text
  | [] => next []
  | c :: rest =>
    if a.accepts c then (greedy a next rest).orElse fun _ => next (c :: rest)
    else next (c :: rest)

/-- What is left of the text after the preferred match at its start. -/
def matchPrefix : Pattern → Text → Option Text
  | [], text => some text
  | .one a :: pattern, c :: rest => if a.accepts c then matchPrefix pattern rest else none
  | .one _ :: _, [] => none
  | .many a :: pattern, text => greedy a (matchPrefix pattern) text

def matchesAtStart (pattern : Pattern) (text : Text) : Bool := (matchPrefix pattern text).isSome

/-- Some position of the text starts a match. -/
def search (pattern : Pattern) (text : Text) : Bool := text.tails.any (matchesAtStart pattern)

/-- `s/^pattern/replacement/`. -/
def substitute (pattern : Pattern) (replacement text : Text) : Text :=
  match matchPrefix pattern text with
  | some rest => replacement ++ rest
  | none => text

/-! ## The language of a pattern -/

def Matches : Pattern → Text → Prop
  | [], text => text = []
  | .one a :: pattern, text => ∃ c rest, text = c :: rest ∧ a.accepts c = true ∧ Matches pattern rest
  | .many a :: pattern, text => ∃ front rest, text = front ++ rest ∧
      (∀ c ∈ front, a.accepts c = true) ∧ Matches pattern rest

theorem greedy_some (found : greedy a next text = some rest) :
    ∃ front middle, text = front ++ middle ∧ (∀ c ∈ front, a.accepts c = true) ∧
      next middle = some rest := by
  induction text with
  | nil => exact ⟨[], [], rfl, by simp, found⟩
  | cons c text ih =>
    simp only [greedy] at found
    split at found
    · rename_i accepted
      cases longer : greedy a next text with
      | some other =>
        simp only [longer, Option.orElse_some] at found
        obtain ⟨front, middle, shape, all, here⟩ := ih (longer.trans found)
        refine ⟨c :: front, middle, by simp [shape], ?_, here⟩
        exact List.forall_mem_cons.mpr ⟨accepted, all⟩
      | none =>
        simp only [longer, Option.orElse_none] at found
        exact ⟨[], c :: text, rfl, by simp, found⟩
    · exact ⟨[], c :: text, rfl, by simp, found⟩

theorem greedy_isSome (all : ∀ c ∈ front, a.accepts c = true) (here : (next middle).isSome) :
    (greedy a next (front ++ middle)).isSome := by
  induction front with
  | nil =>
    cases middle with
    | nil => simpa [greedy] using here
    | cons c middle =>
      simp only [List.nil_append, greedy]
      split
      · cases greedy a next middle <;> simp [here]
      · exact here
  | cons c front ih =>
    obtain ⟨accepted, others⟩ := List.forall_mem_cons.mp all
    obtain ⟨rest, found⟩ := Option.isSome_iff_exists.mp (ih others)
    simp [greedy, accepted, found]

/-- The matcher finds only members of the language. -/
theorem matchPrefix_sound (found : matchPrefix pattern text = some rest) :
    ∃ front, text = front ++ rest ∧ Matches pattern front := by
  induction pattern generalizing text with
  | nil =>
    cases found
    exact ⟨[], rfl, rfl⟩
  | cons item pattern ih =>
    cases item with
    | one a =>
      cases text with
      | nil => cases found
      | cons c text =>
        simp only [matchPrefix] at found
        split at found
        · rename_i accepted
          obtain ⟨front, shape, member⟩ := ih found
          exact ⟨c :: front, by simp [shape], c, front, rfl, accepted, member⟩
        · cases found
    | many a =>
      obtain ⟨front, middle, shape, all, here⟩ := greedy_some found
      obtain ⟨back, split, member⟩ := ih here
      exact ⟨front ++ back, by simp [shape, split], front, back, rfl, all, member⟩

/-- Backtracking is complete: if some prefix is in the language, a match is found. -/
theorem matchPrefix_complete (member : Matches pattern front) (rest : Text) :
    (matchPrefix pattern (front ++ rest)).isSome := by
  induction pattern generalizing front with
  | nil =>
    cases member
    rfl
  | cons item pattern ih =>
    cases item with
    | one a =>
      obtain ⟨c, back, rfl, accepted, member⟩ := member
      simpa [matchPrefix, accepted] using ih member
    | many a =>
      obtain ⟨run, back, rfl, all, member⟩ := member
      rw [List.append_assoc]
      exact greedy_isSome all (ih member)

theorem matchesAtStart_iff : matchesAtStart pattern text = true ↔
    ∃ front rest, text = front ++ rest ∧ Matches pattern front := by
  constructor
  · intro found
    obtain ⟨rest, found⟩ := Option.isSome_iff_exists.mp found
    obtain ⟨front, shape, member⟩ := matchPrefix_sound found
    exact ⟨front, rest, shape, member⟩
  · rintro ⟨front, rest, rfl, member⟩
    exact matchPrefix_complete member rest

theorem matches_append : Matches (pattern ++ more) text ↔
    ∃ front back, text = front ++ back ∧ Matches pattern front ∧ Matches more back := by
  induction pattern generalizing text with
  | nil =>
    constructor
    · intro member
      exact ⟨[], text, rfl, rfl, member⟩
    · rintro ⟨front, back, rfl, rfl, member⟩
      exact member
  | cons item pattern ih =>
    cases item with
    | one a =>
      simp only [List.cons_append, Matches, ih]
      constructor
      · rintro ⟨c, rest, rfl, accepted, front, back, rfl, first, second⟩
        exact ⟨c :: front, back, rfl, ⟨c, front, rfl, accepted, first⟩, second⟩
      · rintro ⟨matched, back, rfl, ⟨c, front, rfl, accepted, first⟩, second⟩
        exact ⟨c, front ++ back, rfl, accepted, front, back, rfl, first, second⟩
    | many a =>
      simp only [List.cons_append, Matches, ih]
      constructor
      · rintro ⟨run, rest, rfl, all, front, back, rfl, first, second⟩
        exact ⟨run ++ front, back, by simp, ⟨run, front, rfl, all, first⟩, second⟩
      · rintro ⟨matched, back, rfl, ⟨run, front, rfl, all, first⟩, second⟩
        exact ⟨run, front ++ back, by simp, all, front, back, rfl, first, second⟩

/-! ## Patterns that stay on a line -/

def Item.atom : Item → Atom
  | .one a => a
  | .many a => a

/-- No character test of the pattern accepts a newline. -/
def OnLine (pattern : Pattern) : Prop := ∀ item ∈ pattern, item.atom.accepts '\n' = false

/-- What follows a line is not looked at. -/
theorem matchPrefix_line (bound : OnLine pattern) (front more : Text) :
    matchPrefix pattern (front ++ '\n' :: more) =
      (matchPrefix pattern front).map (· ++ '\n' :: more) := by
  induction pattern generalizing front with
  | nil => rfl
  | cons item pattern ih =>
    obtain ⟨stops, others⟩ := List.forall_mem_cons.mp bound
    cases item with
    | one a =>
      cases front with
      | nil =>
        simp only [Item.atom] at stops
        simp [matchPrefix, stops]
      | cons c front =>
        simp only [List.cons_append, matchPrefix]
        split
        · exact ih others front
        · rfl
    | many a =>
      simp only [matchPrefix, Item.atom] at stops ⊢
      induction front with
      | nil => simpa [greedy, stops] using ih others []
      | cons c front longer =>
        have shorter := ih others (c :: front)
        simp only [List.cons_append] at shorter
        simp only [List.cons_append, greedy, longer, shorter]
        split
        · cases greedy a (matchPrefix pattern) front <;> simp
        · rfl

theorem substitute_line (bound : OnLine pattern) (replacement front more : Text) :
    substitute pattern replacement (front ++ '\n' :: more) =
      substitute pattern replacement front ++ '\n' :: more := by
  unfold substitute
  rw [matchPrefix_line bound]
  cases matchPrefix pattern front <;> simp

/-! ## Literal text -/

@[simp] theorem literally_nil : literally [] = [] := rfl

@[simp] theorem literally_cons (c : Char) (text : Text) :
    literally (c :: text) = .one (.lit c) :: literally text := rfl

/-- A literal matches nothing but itself, and matching goes on behind it. -/
theorem matchPrefix_literally (word : Text) (pattern : Pattern) (text : Text) :
    matchPrefix (literally word ++ pattern) (word ++ text) = matchPrefix pattern text := by
  induction word with
  | nil => rfl
  | cons c word ih => simpa [matchPrefix, Atom.accepts] using ih

theorem matches_literally_append : Matches (literally word ++ pattern) text ↔
    ∃ rest, text = word ++ rest ∧ Matches pattern rest := by
  induction word generalizing text with
  | nil => simp
  | cons c word ih =>
    simp only [literally_cons, List.cons_append, Matches, ih, Atom.accepts, beq_iff_eq]
    constructor
    · rintro ⟨d, rest, rfl, rfl, back, rfl, member⟩
      exact ⟨back, rfl, member⟩
    · rintro ⟨back, rfl, member⟩
      exact ⟨c, word ++ back, rfl, rfl, back, rfl, member⟩

theorem matchPrefix_literally_none (other : word.isPrefixOf text = false) (pattern : Pattern) :
    matchPrefix (literally word ++ pattern) text = none := by
  cases found : matchPrefix (literally word ++ pattern) text with
  | none => rfl
  | some rest =>
    obtain ⟨front, rfl, member⟩ := matchPrefix_sound found
    obtain ⟨tail, rfl, -⟩ := matches_literally_append.mp member
    have starts : word.isPrefixOf (word ++ tail ++ rest) = true := by
      rw [List.append_assoc]
      exact List.isPrefixOf_iff_prefix.mpr (List.prefix_append word _)
    rw [starts] at other
    cases other

theorem matchesAtStart_literally (word text : Text) :
    matchesAtStart (literally word) text = word.isPrefixOf text := by
  cases starts : word.isPrefixOf text with
  | false =>
    have none := matchPrefix_literally_none starts []
    rw [List.append_nil] at none
    rw [matchesAtStart, none]
    rfl
  | true =>
    obtain ⟨rest, rfl⟩ := List.isPrefixOf_iff_prefix.mp starts
    have found := matchPrefix_literally word [] rest
    rw [List.append_nil] at found
    rw [matchesAtStart, found]
    rfl

/-- What starts with a character that a word does not have is not looked at. -/
theorem isPrefixOf_append {word rest : Text} (stops : ∀ c, rest.head? = some c → c ∉ word)
    (text : Text) : word.isPrefixOf (text ++ rest) = word.isPrefixOf text := by
  induction word generalizing text with
  | nil => rfl
  | cons d word ih =>
    cases text with
    | nil =>
      cases rest with
      | nil => rfl
      | cons c rest =>
        have differ : d ≠ c := fun same => stops c rfl (by simp [same])
        simp [List.isPrefixOf, differ]
    | cons c text =>
      have later : ∀ c, rest.head? = some c → c ∉ word :=
        fun c first member => stops c first (List.mem_cons_of_mem d member)
      simp [List.isPrefixOf, ih later text]

theorem onLine_literally (free : '\n' ∉ word) : OnLine (literally word) := by
  intro item member
  obtain ⟨c, held, rfl⟩ := List.mem_map.mp member
  have differ : c ≠ '\n' := by
    rintro rfl
    exact free held
  simpa [Item.atom, Atom.accepts] using differ

theorem onLine_append (left : OnLine pattern) (right : OnLine rest) : OnLine (pattern ++ rest) := by
  intro item member
  rcases List.mem_append.mp member with member | member
  · exact left item member
  · exact right item member

/-! ## Patterns that take all they can -/

theorem matchPrefix_many (a : Atom) (text : Text) :
    matchPrefix [.many a] text = some (text.dropWhile a.accepts) := by
  simp only [matchPrefix]
  induction text with
  | nil => rfl
  | cons c text ih =>
    rw [greedy]
    split
    · rename_i accepted
      simp [ih, accepted]
    · rename_i refused
      simp [refused]

theorem matchPrefix_dots (free : '\n' ∉ text) : matchPrefix [.many .dot] text = some [] := by
  rw [matchPrefix_many, List.dropWhile_eq_nil_iff.mpr]
  intro c member
  have differ : c ≠ '\n' := by
    rintro rfl
    exact free member
  simpa [Atom.accepts] using differ

/-- A pattern that ends in `.*` stops at a newline or at the end. -/
theorem matchPrefix_dotEnd {pattern : Pattern} {text rest : Text}
    (found : matchPrefix (pattern ++ [.many .dot]) text = some rest) :
    rest = [] ∨ ∃ more, rest = '\n' :: more := by
  induction pattern generalizing text with
  | nil =>
    rw [List.nil_append, matchPrefix_many] at found
    have shape := Option.some.inj found
    cases rest with
    | nil => exact Or.inl rfl
    | cons c rest =>
      have stops := List.head?_dropWhile_not Atom.dot.accepts text
      rw [shape] at stops
      have newline : c = '\n' := by simpa [Atom.accepts] using stops
      exact Or.inr ⟨rest, by rw [newline]⟩
  | cons item pattern ih =>
    cases item with
    | one a =>
      cases text with
      | nil => cases found
      | cons c text =>
        simp only [List.cons_append, matchPrefix] at found
        split at found
        · exact ih found
        · cases found
    | many a =>
      obtain ⟨front, middle, rfl, -, here⟩ := greedy_some found
      exact ih here

/-- It leaves nothing of a line it matches. -/
theorem matchPrefix_toEnd {pattern : Pattern} {text : Text} (free : '\n' ∉ text)
    (found : matchPrefix (pattern ++ [.many .dot]) text = some rest) : rest = [] := by
  rcases matchPrefix_dotEnd found with rfl | ⟨more, rfl⟩
  · rfl
  · obtain ⟨front, rfl, -⟩ := matchPrefix_sound found
    simp at free

/-- Whether it matches depends on what stands before the `.*`. -/
theorem matchesAtStart_dots (pattern : Pattern) (text : Text) :
    matchesAtStart (pattern ++ [.many .dot]) text = matchesAtStart pattern text := by
  rw [Bool.eq_iff_iff, matchesAtStart_iff, matchesAtStart_iff]
  constructor
  · rintro ⟨matched, rest, rfl, member⟩
    obtain ⟨front, back, rfl, member, -⟩ := matches_append.mp member
    exact ⟨front, back ++ rest, by simp, member⟩
  · rintro ⟨front, rest, rfl, member⟩
    refine ⟨front, rest, rfl, matches_append.mpr ⟨front, [], by simp, member, ?_⟩⟩
    exact ⟨[], [], rfl, by simp, rfl⟩

end Fdgw.Patterns
