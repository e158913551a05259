import Fdgw.KernelConfigProofs
import Mathlib.Data.List.DropRight
import Mathlib.Data.List.Forall2

/-! When the kernel converters take prose for configuration. Both look for the
words of an entry anywhere in a comment; what becomes of the comment depends on
how many `#` stand in front of it. -/
namespace Fdgw.KernelConfig
open Patterns TextLines

variable {line text rest tail entry : Text} {list : List Text}

/-- For `config`, a `#` makes a comment of the rest of a line. -/
def Comment (line : Text) : Prop := (line.dropWhile isSpace).head? = some '#'

/-- The line has something to say to `config`. -/
def Configures (line : Text) : Prop := ∃ c, (line.dropWhile isSpace).head? = some c ∧ c ≠ '#'

/-- The first word of a comment. -/
def firstWord (line : Text) : Text :=
  (line.dropWhile fun c => c = '#' ∨ isSpace c = true).takeWhile fun c => !isSpace c

/-- Every comment that came out as configuration had the first word of an entry
that matches it. -/
def KeepsProse (directive : Text → Prop) (source printed : List Text) : Prop :=
  List.Forall₂ (fun line result => Comment line → Configures result → directive line) source printed

/-- The comment is a directive of `config.enable`, commented out. -/
def Directive (line : Text) : Prop :=
  ∃ entry ∈ entries configEnable,
    matchesAtStart (.one (.lit '#') :: inOrder (splitSpace entry)) line = true ∧
      (words entry).head? = some (firstWord line)

def hashes (line : Text) : Nat := (line.takeWhile fun c => c = '#').length

/-- What stands behind the leading `#`s. -/
def behind (line : Text) : Text := line.dropWhile fun c => c = '#'

def mentioned (list : List Text) (text : Text) : Nat :=
  list.countP fun entry => matchesAtStart (inOrder (splitSpace entry)) text

/-- The comment mentions enough entries to lose all its `#`s. -/
def Exposed (line : Text) : Prop :=
  0 < hashes line ∧ hashes line ≤ mentioned (entries configEnable) (behind line) ∧
    Configures (behind line)

/-! ## One `#` for every entry -/

theorem inOrder_hash (plain : ∀ word ∈ tokens, word ≠ [] ∧ '#' ∉ word) :
    InOrder tokens ('#' :: text) ↔ InOrder tokens text := by
  constructor
  · intro found
    cases tokens with
    | nil => trivial
    | cons word tokens =>
      obtain ⟨held, free⟩ := plain word (List.mem_cons_self ..)
      obtain ⟨before, after, shape, later⟩ := found
      cases before with
      | nil =>
        cases word with
        | nil => exact absurd rfl held
        | cons c word =>
          obtain ⟨same, -⟩ := List.cons.inj shape
          exact absurd (same ▸ List.mem_cons_self ..) free
      | cons c before => exact ⟨before, after, (List.cons.inj shape).2, later⟩
  · exact InOrder.prepend ['#']

/-- No token of the entry has a `#`. -/
def HashFree (entry : Text) : Prop := (words entry).all (fun word => !word.contains '#') = true

theorem entryMatches_hashes (plain : HashFree entry) (k : Nat) :
    EntryMatches entry (List.replicate k '#' ++ text) ↔ EntryMatches entry text := by
  have visible : ∀ word ∈ words entry, word ≠ [] ∧ '#' ∉ word := by
    intro word member
    refine ⟨?_, ?_⟩
    · have kept := (List.mem_filter.mp member).2
      simpa using kept
    · have free := List.all_eq_true.mp plain word member
      simpa using free
  induction k with
  | zero => rfl
  | succ k ih => exact (inOrder_hash visible).trans ih

theorem runStatements_hashes (plain : ∀ entry ∈ list, HashFree entry) (front : active rest = true)
    (free : '\n' ∉ rest) (ending : Ending tail) (k : Nat) :
    runStatements (list.map enableStatement) (List.replicate k '#' ++ rest ++ tail) =
      List.replicate (k - mentioned list (rest ++ tail)) '#' ++ rest ++ tail := by
  induction list generalizing k with
  | nil => rfl
  | cons entry list ih =>
    obtain ⟨here, others⟩ := List.forall_mem_cons.mp plain
    have matched : matchesAtStart (inOrder (splitSpace entry)) (rest ++ tail) = true ↔
        EntryMatches entry rest := guard_matches free ending
    have clean : ∀ k, '\n' ∉ List.replicate k '#' ++ rest := by
      intro k
      simp [free]
    simp only [runStatements, List.map_cons, List.foldl_cons] at ih ⊢
    rw [run_enable (clean k) ending]
    cases k with
    | zero =>
      have still : ¬(active rest = false ∧ EntryMatches entry (body rest)) := by simp [front]
      have kept := ih others 0
      simp only [List.replicate_zero, List.nil_append, Nat.zero_sub] at kept ⊢
      rw [if_neg still, kept]
    | succ k =>
      have stripped : body (List.replicate (k + 1) '#' ++ rest) = List.replicate k '#' ++ rest := rfl
      have hashed : active (List.replicate (k + 1) '#' ++ rest) = false := rfl
      rw [stripped, entryMatches_hashes here]
      by_cases found : EntryMatches entry rest
      · have counted : mentioned (entry :: list) (rest ++ tail) = mentioned list (rest ++ tail) + 1 :=
          List.countP_cons_of_pos (matched.mpr found)
        rw [if_pos ⟨hashed, found⟩, ih others k, counted, Nat.add_sub_add_right]
      · have skipped : mentioned (entry :: list) (rest ++ tail) = mentioned list (rest ++ tail) :=
          List.countP_cons_of_neg (fun met => found (matched.mp met))
        rw [if_neg (fun both => found both.2), ih others (k + 1), skipped]

/-! ## A comment of release 1.6 -/

theorem hashes_split (line : Text) :
    line = List.replicate (hashes line) '#' ++ behind line ∧ active (behind line) = true := by
  have all : line.takeWhile (fun c => c = '#') = List.replicate (hashes line) '#' := by
    apply List.eq_replicate_of_mem
    intro c member
    simpa using List.mem_takeWhile_imp member
  refine ⟨?_, ?_⟩
  · rw [← all, behind, List.takeWhile_append_dropWhile]
  · have stops := List.head?_dropWhile_not (fun c => decide (c = '#')) line
    unfold active behind
    cases first : (line.dropWhile fun c => decide (c = '#')).head? with
    | none => rfl
    | some c => simpa [first] using stops

theorem hashes_replicate (front : active rest = true) (k : Nat) :
    hashes (List.replicate k '#' ++ rest) = k ∧ behind (List.replicate k '#' ++ rest) = rest := by
  induction k with
  | zero =>
    cases rest with
    | nil => exact ⟨rfl, rfl⟩
    | cons c rest =>
      have differ : c ≠ '#' := by simpa [active] using front
      simp [hashes, behind, differ]
  | succ k ih =>
    simp only [hashes, behind] at ih ⊢
    rw [List.replicate_succ, List.cons_append, List.takeWhile_cons_of_pos (by simp),
      List.dropWhile_cons_of_pos (by simp), List.length_cons, ih.1, ih.2]
    exact ⟨rfl, rfl⟩

theorem active_tail (front : active rest = true) (ending : Ending tail) : active (rest ++ tail) = true := by
  cases rest with
  | nil => rcases ending with rfl | rfl <;> rfl
  | cons c rest => exact front

theorem comment_hash (rest : Text) : Comment ('#' :: rest) := rfl

theorem comment_silent (comment : Comment line) : ¬ Configures line := by
  rintro ⟨c, first, other⟩
  rw [comment] at first
  exact other (Option.some.inj first).symm

/-- A comment that does not start with `#` starts with white space. -/
theorem comment_indented (comment : Comment line) (front : active line = true) : startsWord line = false := by
  cases line with
  | nil => rfl
  | cons c line =>
    have differ : c ≠ '#' := by simpa [active] using front
    have space : isSpace c = true := by
      by_contra visible
      simp [Comment, visible, differ] at comment
    unfold isSpace at space
    simp only [List.mem_cons, List.not_mem_nil, or_false, decide_eq_true_eq] at space
    rcases space with rfl | rfl | rfl | rfl | rfl
    all_goals rfl

theorem configEnable_plain : ∀ entry ∈ entries configEnable, HashFree entry := by
  unfold HashFree
  decide +kernel

theorem comment_startsWord (comment : Comment (text ++ tail)) :
    startsWord text = false := by
  cases held : active text with
  | false =>
    rw [← body_inactive held]
    rfl
  | true =>
    cases text with
    | nil => rfl
    | cons c text =>
      have indented : startsWord (c :: (text ++ tail)) = false := comment_indented comment held
      exact indented

theorem configures_hashes (k : Nat) : Configures (List.replicate k '#' ++ rest) ↔ k = 0 ∧ Configures rest := by
  cases k with
  | zero => simp
  | succ k =>
    constructor
    · intro configures
      exact absurd configures (comment_silent (comment_hash _))
    · rintro ⟨none, -⟩
      cases none

/-- A comment comes out as configuration exactly when it mentions enough entries. -/
theorem comment_configures (free : '\n' ∉ text) (ending : Ending tail) (comment : Comment (text ++ tail))
    (disable : List Text) :
    Configures (runStatements (disable.map disableStatement ++
      (entries configEnable).map enableStatement) (text ++ tail)) ↔ Exposed (text ++ tail) := by
  obtain ⟨split, front⟩ := hashes_split text
  have clean : '\n' ∉ behind text := by
    intro held
    rw [split] at free
    exact free (List.mem_append_right _ held)
  have shape : text ++ tail = List.replicate (hashes text) '#' ++ (behind text ++ tail) := by
    rw [← List.append_assoc, ← split]
  obtain ⟨count, after⟩ := hashes_replicate (active_tail front ending) (hashes text)
  have untouched : ¬(startsWord text = true ∧ SomeMatches disable text) := by
    simp [comment_startsWord comment]
  have run := runStatements_hashes configEnable_plain front clean ending (hashes text)
  rw [← split, List.append_assoc] at run
  rw [runStatements_append, runStatements_disable free ending, if_neg untouched, run, configures_hashes]
  rw [shape] at comment ⊢
  rw [Exposed, count, after]
  constructor
  · rintro ⟨none, configures⟩
    refine ⟨?_, by omega, configures⟩
    apply Nat.pos_of_ne_zero
    intro zero
    rw [zero] at comment
    exact comment_silent comment configures
  · rintro ⟨-, enough, configures⟩
    exact ⟨by omega, configures⟩

/-! ## A comment of release 1.5 -/

namespace Release15

/-- The comment is a directive the script looks for, commented out. -/
def Directive (line : Text) : Prop :=
  ∃ entry ∈ enabling, search entry.2 line = true ∧ entry.1 = firstWord line

/-- The comment mentions an entry and has a single `#`. -/
def Exposed (line : Text) : Prop :=
  ∃ rest, line = '#' :: rest ∧ (enabling.any fun entry => search entry.2 line) = true ∧ Configures rest

theorem uncommented (rest : Text) :
    substitute [.one (.lit '#'), .many .space] [] ('#' :: rest) = rest.dropWhile isSpace := by
  have accepts : Atom.space.accepts = isSpace := funext space_accepts
  have found : matchPrefix [.one (.lit '#'), .many .space] ('#' :: rest) =
      some (rest.dropWhile isSpace) := by
    rw [← accepts, ← matchPrefix_many]
    simp [matchPrefix, Atom.accepts]
  rw [substitute, found]
  rfl

theorem configures_dropWhile (line : Text) : Configures (line.dropWhile isSpace) ↔ Configures line := by
  rw [Configures, Configures, List.dropWhile_idempotent]

theorem comment_configures (comment : Comment line) : Configures (convertLine line) ↔ Exposed line := by
  cases line with
  | nil => cases comment
  | cons c rest =>
    by_cases hash : c = '#'
    · subst hash
      rw [convertLine, if_pos (by rfl)]
      by_cases found : (enabling.any fun entry => search entry.2 ('#' :: rest)) = true
      · rw [if_pos found, uncommented, configures_dropWhile]
        constructor
        · intro configures
          exact ⟨rest, rfl, found, configures⟩
        · rintro ⟨_, shape, -, configures⟩
          cases shape
          exact configures
      · rw [if_neg found]
        constructor
        · intro configures
          exact absurd configures (comment_silent comment)
        · rintro ⟨_, -, met, -⟩
          exact absurd met found
    · have silent : ¬ Configures (convertLine (c :: rest)) := by
        rw [convertLine, if_neg (by simpa using hash)]
        split
        · exact comment_silent (comment_hash _)
        · exact comment_silent comment
      constructor
      · intro configures
        exact absurd configures silent
      · rintro ⟨_, shape, -⟩
        exact absurd (List.cons.inj shape).1 hash

end Release15

/-! ## Whole files -/

/-- A converter that works line by line keeps prose exactly when the comments it
exposes are directives. -/
theorem keepsProse_map {directive exposed : Text → Prop} {convert : Text → Text} {lines : List Text}
    (comments : ∀ line, exposed line → Comment line)
    (decided : ∀ line ∈ lines, Comment line → (Configures (convert line) ↔ exposed line)) :
    KeepsProse directive lines (lines.map convert) ↔ ∀ line ∈ lines, exposed line → directive line := by
  rw [KeepsProse, List.forall₂_map_right_iff, List.forall₂_same]
  constructor
  · intro kept line member found
    have comment := comments line found
    exact kept line member comment ((decided line member comment).mpr found)
  · intro named line member comment configures
    exact named line member ((decided line member comment).mp configures)

theorem exposed_comment (line : Text) (exposed : Exposed line) : Comment line := by
  obtain ⟨split, -⟩ := hashes_split line
  obtain ⟨k, count⟩ := Nat.exists_eq_succ_of_ne_zero (Nat.ne_of_gt exposed.1)
  rw [split, count]
  rfl

/-- No converter makes configuration of prose exactly when the comments that
mention enough entries begin with the first word of one. -/
theorem prose_kept_iff (disable source : Text) :
    ((∃ printed, convertLines disable configEnable source = some printed ∧
        KeepsProse Directive (readLines source) printed) ↔
      ∀ line ∈ readLines source, Exposed line → Directive line) ∧
    (KeepsProse Release15.Directive (readLines source) (Release15.convertLines source) ↔
      ∀ line ∈ readLines source, Release15.Exposed line → Release15.Directive line) := by
  constructor
  · have decided : ∀ line ∈ readLines source, Comment line →
        (Configures (runStatements ((entries disable).map disableStatement ++
          (entries configEnable).map enableStatement) line) ↔ Exposed line) := by
      intro line member comment
      obtain ⟨text, tail, rfl, free, ending⟩ := readLines_shape source line member
      exact comment_configures free ending comment (entries disable)
    rw [convertLines, readProgram_program, Option.map_some, ← keepsProse_map exposed_comment decided]
    constructor
    · rintro ⟨printed, written, kept⟩
      cases written
      exact kept
    · intro kept
      exact ⟨_, rfl, kept⟩
  · apply keepsProse_map
    · rintro line ⟨rest, rfl, -⟩
      exact comment_hash rest
    · intro line _ comment
      exact Release15.comment_configures comment

/-- A remark on an option. -/
def remark : Text := "# see options GATEWAY\n".toList

theorem remark_configures :
    convertLines [] configEnable remark = some [" see options GATEWAY\n".toList] ∧
    Release15.convertLines remark = ["see options GATEWAY\n".toList] ∧
    ¬ (∃ printed, convertLines [] configEnable remark = some printed ∧
      KeepsProse Directive (readLines remark) printed) ∧
    ¬ KeepsProse Release15.Directive (readLines remark) (Release15.convertLines remark) := by
  have lines : readLines remark = [remark] := by decide +kernel
  have printed : convertLines [] configEnable remark = some [" see options GATEWAY\n".toList] := by
    rw [convertLines, readProgram_program]
    decide +kernel
  have printed15 : Release15.convertLines remark = ["see options GATEWAY\n".toList] := by decide +kernel
  have comment : Comment remark := by
    unfold Comment
    decide +kernel
  refine ⟨printed, printed15, ?_, ?_⟩
  · rintro ⟨other, written, kept⟩
    rw [printed] at written
    cases written
    rw [lines] at kept
    have configures : Configures " see options GATEWAY\n".toList := ⟨'s', by decide +kernel, by decide⟩
    have named := (List.forall₂_cons.mp kept).1 comment configures
    revert named
    unfold Directive
    decide +kernel
  · intro kept
    rw [printed15, lines] at kept
    have configures : Configures "see options GATEWAY\n".toList := ⟨'s', by decide +kernel, by decide⟩
    have named := (List.forall₂_cons.mp kept).1 comment configures
    revert named
    unfold Release15.Directive
    decide +kernel

end Fdgw.KernelConfig
