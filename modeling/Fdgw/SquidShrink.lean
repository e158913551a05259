import Fdgw.Repetitions
import Fdgw.SquidRewrite

/-! `src/etc/squid/shrink.sh`: the converted configuration without its comments.
The filter between `convert.pl` and `uniq` looks for some of its words anywhere
in a line, so a directive that mentions one of them is lost with the comments. -/
namespace Fdgw.SquidConfig
open Patterns TextLines Repetitions

variable {line text : Text}

/-! ## The pipeline -/

def markers : List Text := ["EXAMPLE:".toList, "Note:".toList, "Default:".toList]

/-- `/EXAMPLE:|Note:|Default:/` -/
def marked (line : Text) : Bool := markers.any fun word => search (literally word) line

/-- `/^\#\s{3,}|^\#\t|^\#\s*$/` -/
def idle (line : Text) : Bool :=
  matchesAtStart [.one (.lit '#'), .one .space, .one .space, .one .space, .many .space] line ||
    matchesAtStart (literally "#\t".toList) line ||
    matchPrefix [.one (.lit '#'), .many .space] line = some []

/-- The lines of a text without their terminators. -/
def chomped (text : Text) : List Text := (readLines text).map chomp

def writeLines (lines : List Text) : Text := lines.flatMap (· ++ ['\n'])

/-- `perl -nle 'print unless /…/'` -/
def printUnless (text : Text) : Text :=
  writeLines ((chomped text).filter fun line => !(marked line || idle line))

def uniq (text : Text) : Text := writeLines ((chomped text).destutter (· ≠ ·))

/-- The file `shrink.sh` writes. -/
def shrink (source : Text) : Text := uniq (printUnless (convert source))

/-! ## Active lines -/

def isActive (line : Text) : Bool := line.any (fun c => !isSpace c) && line.head? != some '#'

def activeLines (text : Text) : List Text := (text.splitOn '\n').filter isActive

theorem activeLines_chomped (text : Text) : activeLines text = (chomped text).filter isActive := by
  unfold activeLines chomped
  induction text using lines_induction with
  | last rest free =>
    rw [List.splitOn_eq_singleton free]
    by_cases empty : rest = []
    · subst empty
      rfl
    · have open_ : chomp rest = rest := by
        rw [chomp, if_neg]
        intro last
        exact free (List.mem_of_getLast? last)
      rw [readLines_last free empty, List.map_cons, open_, List.map_nil]
  | line front more free ih =>
    have closed : chomp (front ++ ['\n']) = front := by simp [chomp]
    rw [List.splitOn_append_cons_self_of_not_mem free, readLines_line free, List.map_cons, closed,
      List.filter_cons, List.filter_cons, ih]

theorem chomped_free (text : Text) : ∀ line ∈ chomped text, '\n' ∉ line := by
  intro line member
  obtain ⟨read, held, rfl⟩ := List.mem_map.mp member
  obtain ⟨front, tail, rfl, free, rfl | rfl⟩ := readLines_shape text read held
  · rw [List.append_nil, chomp]
    split
    · intro inside
      exact free (List.mem_of_mem_dropLast inside)
    · exact free
  · simpa [chomp] using free

theorem chomped_writeLines {lines : List Text} (free : ∀ line ∈ lines, '\n' ∉ line) :
    chomped (writeLines lines) = lines := by
  induction lines with
  | nil => rfl
  | cons line lines ih =>
    obtain ⟨here, others⟩ := List.forall_mem_cons.mp free
    have shape : writeLines (line :: lines) = line ++ '\n' :: writeLines lines := by
      simp [writeLines]
    have closed : chomp (line ++ ['\n']) = line := by simp [chomp]
    rw [shape, chomped, readLines_line here, List.map_cons, closed]
    exact congrArg _ (ih others)

/-- The lines the filter lets through. -/
def kept (text : Text) : List Text := (chomped text).filter fun line => !(marked line || idle line)

theorem chomped_shrink (source : Text) :
    chomped (shrink source) = (kept (convert source)).destutter (· ≠ ·) := by
  have free : ∀ line ∈ kept (convert source), '\n' ∉ line := by
    intro line member
    exact chomped_free _ line (List.mem_of_mem_filter member)
  have printed : chomped (printUnless (convert source)) = kept (convert source) := chomped_writeLines free
  rw [shrink, uniq, printed]
  apply chomped_writeLines
  intro line member
  exact free line ((List.destutter_sublist _ _).subset member)

theorem active_not_idle (active : isActive line = true) : idle line = false := by
  cases line with
  | nil => cases active
  | cons c line =>
    have differ : '#' ≠ c := by
      rintro rfl
      simp [isActive] at active
    simp [idle, matchesAtStart, matchPrefix, Atom.accepts, differ]

/-! ## What the filter takes -/

/-- The pipeline removes nothing of the configuration but lines that repeat the
active line before them. -/
structure RemovesComments (source : Text) : Prop where
  repeats : OnlyRepeats (activeLines (convert source)) (activeLines (shrink source))
  members : ∀ line, line ∈ activeLines (convert source) ↔ line ∈ activeLines (shrink source)
  order : (activeLines (convert source)).eraseDups = (activeLines (shrink source)).eraseDups

theorem removes_comments_unmarked (source : Text) : RemovesComments source ↔
    ∀ line ∈ activeLines (convert source), marked line = false := by
  have result : activeLines (shrink source) =
      ((kept (convert source)).destutter (· ≠ ·)).filter isActive := by
    rw [activeLines_chomped, chomped_shrink]
  constructor
  · intro removes line member
    have held := (removes.members line).mp member
    rw [result] at held
    have passed := (List.destutter_sublist _ _).subset (List.mem_of_mem_filter held)
    have through := (List.mem_filter.mp passed).2
    simp only [Bool.not_eq_true', Bool.or_eq_false_iff] at through
    exact through.1
  · intro unmarked
    have whole : (kept (convert source)).filter isActive = activeLines (convert source) := by
      rw [activeLines_chomped, kept, List.filter_filter]
      apply List.filter_congr
      intro line member
      cases active : isActive line with
      | false => rfl
      | true =>
        have held : line ∈ activeLines (convert source) := by
          rw [activeLines_chomped]
          exact List.mem_filter.mpr ⟨member, active⟩
        simp [unmarked line held, active_not_idle active]
    have repeats : OnlyRepeats (activeLines (convert source)) (activeLines (shrink source)) := by
      rw [result, ← whole]
      exact (OnlyRepeats.destutter _).filter isActive
    exact ⟨repeats, fun line => repeats.mem_iff, repeats.eraseDups⟩

/-! ## In terms of the source -/

/-- What the converter passes on of a line as it stands: the line, the rest of it
behind the rule for the manager, nothing of an old list of local networks. -/
def passedOn (line : Text) : Text :=
  if allowManager.isPrefixOf line then line.drop allowManager.length
  else if aclLocal.isPrefixOf line then []
  else line

/-- No active line of the text has one of the words. -/
def Unmarked (text : Text) : Prop := ∀ line ∈ activeLines text, marked line = false

theorem activeLines_append (text more : Text) :
    activeLines (text ++ '\n' :: more) = activeLines text ++ activeLines more := by
  simp [activeLines, List.splitOn_eq_splitOnP, List.splitOnP_append_cons]

theorem unmarked_append (text more : Text) :
    Unmarked (text ++ '\n' :: more) ↔ Unmarked text ∧ Unmarked more := by
  rw [Unmarked, activeLines_append]
  exact List.forall_mem_append

theorem activeLines_line (free : '\n' ∉ line) : activeLines line = [line].filter isActive := by
  rw [activeLines, List.splitOn_eq_singleton free]

theorem unmarked_line (free : '\n' ∉ line) :
    Unmarked line ↔ (isActive line = true → marked line = false) := by
  rw [Unmarked, activeLines_line free]
  simp only [List.mem_filter, List.mem_singleton]
  constructor
  · intro unmarked active
    exact unmarked line ⟨rfl, active⟩
  · rintro unmarked _ ⟨rfl, active⟩
    exact unmarked active

theorem unmarked_comment (free : '\n' ∉ line) (hash : line.head? = some '#') : Unmarked line := by
  rw [unmarked_line free]
  intro active
  simp [isActive, hash] at active

theorem settings_unmarked : ∀ entry ∈ settings, marked entry.2 = false := by
  decide +kernel

theorem localnet_unmarked : Unmarked localnet := by
  unfold Unmarked
  decide +kernel

theorem allow_unmarked : Unmarked
    "\nhttp_access allow manager localhost\nhttp_access allow local\nhttp_access allow localhost".toList := by
  unfold Unmarked
  decide +kernel

theorem passedOn_comment (hash : line.head? = some '#') : passedOn line = line := by
  obtain ⟨rest, rfl⟩ := List.head?_eq_some_iff.mp hash
  obtain ⟨-, local_, manager⟩ := comment_apart rest
  rw [passedOn, if_neg (by simp [manager]), if_neg (by simp [local_])]

/-- Everything the converter puts in by itself is free of the words. -/
theorem unmarked_convertLine (free : '\n' ∉ line) :
    Unmarked (convertLine line) ↔ Unmarked (passedOn line) := by
  have converted := convertLine_converted free
  generalize convertLine line = result at converted
  cases converted with
  | comment hash => rw [passedOn_comment hash]
  | setting hash member =>
    have single := (settings_harmless _ member).2.2.1
    have clean : Unmarked _ := (unmarked_line single).mpr fun _ => settings_unmarked _ member
    rw [passedOn_comment hash]
    exact iff_of_true clean (unmarked_comment free hash)
  | localhost more =>
    obtain ⟨local_, manager⟩ := localhost_apart more
    have same : passedOn (aclLocalhost ++ more) = aclLocalhost ++ more := by
      rw [passedOn, if_neg (by simp [manager]), if_neg (by simp [local_])]
    rw [unmarked_append, same]
    exact and_iff_left localnet_unmarked
  | local_ more =>
    have nothing : passedOn (aclLocal ++ more) = [] := by
      rw [passedOn, if_neg (by simp [(local_apart more).2]), if_pos (prefix_self aclLocal more)]
    rw [nothing]
    exact iff_of_true localnet_unmarked (by simp [Unmarked, activeLines, isActive])
  | manager more =>
    have rest : passedOn (allowManager ++ more) = more := by
      rw [passedOn, if_pos (prefix_self allowManager more), List.drop_left]
    rw [allow_split, unmarked_append, rest]
    exact and_iff_right allow_unmarked
  | other plain localhost local_ manager =>
    rw [passedOn, if_neg (by simp [manager]), if_neg (by simp [local_])]

theorem passedOn_free (free : '\n' ∉ line) : '\n' ∉ passedOn line := by
  unfold passedOn
  split
  · intro held
    exact free (List.mem_of_mem_drop held)
  · split
    · exact List.not_mem_nil
    · exact free

theorem unmarked_intercalate (pieces : List Text) :
    Unmarked (['\n'].intercalate pieces) ↔ ∀ piece ∈ pieces, Unmarked piece := by
  induction pieces with
  | nil => simp [Unmarked, activeLines, isActive]
  | cons piece pieces ih =>
    cases pieces with
    | nil => simp
    | cons next pieces =>
      have shape : ['\n'].intercalate (piece :: next :: pieces) =
          piece ++ '\n' :: ['\n'].intercalate (next :: pieces) := by simp
      rw [shape, unmarked_append, ih]
      exact List.forall_mem_cons.symm

/-- The pipeline removes comments only exactly when no active line of the source
has one of the filter's words in what the converter passes on of it. -/
theorem removes_comments_iff (source : Text) : RemovesComments source ↔
    ∀ line ∈ source.splitOn '\n', isActive (passedOn line) = true → marked (passedOn line) = false := by
  have lines : Unmarked (convert source) ↔ ∀ line ∈ source.splitOn '\n', Unmarked (convertLine line) := by
    rw [convert_lines, unmarked_intercalate]
    exact List.forall_mem_map
  rw [removes_comments_unmarked, ← Unmarked, lines]
  have each : ∀ line ∈ source.splitOn '\n', Unmarked (convertLine line) ↔
      (isActive (passedOn line) = true → marked (passedOn line) = false) := by
    intro line member
    have free := splitOn_free member
    rw [unmarked_convertLine free, unmarked_line (passedOn_free free)]
  exact forall₂_congr each

/-- A setting with a remark behind it. -/
def annotated : Text := "cache_mgr webmaster # Note: see README\n".toList

theorem annotated_lost : activeLines (convert annotated) =
      ["cache_mgr webmaster # Note: see README".toList] ∧
    shrink annotated = [] ∧ ¬ RemovesComments annotated := by
  have before : activeLines (convert annotated) =
      ["cache_mgr webmaster # Note: see README".toList] := by decide +kernel
  have after : shrink annotated = [] := by decide +kernel
  refine ⟨before, after, ?_⟩
  intro removes
  have lost := (removes.members _).mp (by rw [before]; exact List.mem_singleton_self _)
  rw [after] at lost
  revert lost
  decide +kernel

end Fdgw.SquidConfig
