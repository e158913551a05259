import Fdgw.Extract

/-! What one pass of the inner loop of `extract.sh` does. The packages' names
exclude each other as prefixes, so at most one `RENAME` of a pass is active; it
either gives the unpacked tree its package's name or ends the script. -/
namespace Fdgw.Extract
open Patterns TextLines

variable {p q : Prog} {ps : List Prog} {s r : State} {t : Tarball} {name source : Text}
  {sources : List Text}

/-- The names of the packages differ in their first letters. -/
theorem text_initial (same : p.text.head? = q.text.head?) : p = q := by
  revert same
  cases p <;> cases q <;> decide

theorem prefix_initial (front : p.text.isPrefixOf name = true) : p.text.head? = name.head? := by
  obtain ⟨rest, rfl⟩ := List.isPrefixOf_iff_prefix.mp front
  rw [List.head?_append_of_ne_nil]
  cases p <;> decide

theorem prefix_unique (one : p.text.isPrefixOf name = true) (other : q.text.isPrefixOf name = true) :
    p = q :=
  text_initial ((prefix_initial one).trans (prefix_initial other).symm)

theorem prefix_self (p : Prog) : p.text.isPrefixOf p.text = true := by
  simp

/-- The package of the last directory a pass has met. -/
def lastPresent (dirs : List Text) (ps : List Prog) (start : Option Prog) : Option Prog :=
  ps.foldl (fun found p => if present dirs p then some p else found) start

/-! ## Packages other than the tarball's own -/

theorem visit_exited (gone : s.exited = true) : visit name s p = s := by
  simp [visit, gone]

theorem sweep_exited (gone : s.exited = true) : ps.foldl (visit name) s = s := by
  induction ps with
  | nil => rfl
  | cons p ps ih => rw [List.foldl_cons, visit_exited gone, ih]

theorem visit_other (foreign : p.text.isPrefixOf name = false) (alive : s.exited = false) :
    visit name s p = { s with
      prog := if present s.dirs p then some p else s.prog
      markers := if present s.dirs p then s.markers.insert name else s.markers } := by
  have unchanged : rename name p s = s := by simp [rename, foreign]
  unfold visit
  rw [if_neg (by simp [alive]), unchanged]
  by_cases held : p.text ∈ s.dirs
  · simp [present, held, alive]
  · simp [present, held]

/-- The visible effect of visiting packages that are not the tarball's. -/
def noticed (name : Text) (ps : List Prog) (s : State) : State :=
  { s with
    prog := lastPresent s.dirs ps s.prog
    markers := if ps.any (present s.dirs) then s.markers.insert name else s.markers }

theorem sweep_others (foreign : ∀ p ∈ ps, p.text.isPrefixOf name = false) (alive : s.exited = false) :
    ps.foldl (visit name) s = noticed name ps s := by
  induction ps generalizing s with
  | nil => simp [noticed, lastPresent]
  | cons p ps ih =>
    obtain ⟨here, others⟩ := List.forall_mem_cons.mp foreign
    rw [List.foldl_cons, visit_other here alive, ih others (by exact alive)]
    cases held : present s.dirs p <;> simp [noticed, lastPresent, held]

/-! ## The tarball's own package -/

/-- A failing `mv` puts directories inside one another at most; the package
directories stay where they are. -/
structure Shuffled (s r : State) : Prop where
  markers : r.markers = s.markers
  dirs : ∀ dir ∈ r.dirs, dir ∈ s.dirs
  packages : ∀ p, present r.dirs p = present s.dirs p
  history : ∃ deeds : List Deed, r.history = deeds ++ s.history ∧
    ∀ deed ∈ deeds, ∃ source target, deed = .nested source target

theorem Shuffled.refl (s : State) : Shuffled s s :=
  ⟨rfl, fun _ member => member, fun _ => rfl, [], rfl, by simp⟩

theorem Shuffled.exit (done : Shuffled s r) : Shuffled s { r with exited := true } :=
  ⟨done.markers, done.dirs, done.packages, done.history⟩

theorem moveInto_shuffled (within : q.text.isPrefixOf source = true) (done : Shuffled s r) :
    Shuffled s (moveInto q r source) := by
  unfold moveInto
  split
  · exact done
  · rename_i apart
    obtain ⟨deeds, extended, quiet⟩ := done.history
    refine ⟨done.markers, ?_, ?_, .nested source q.text :: deeds, ?_, ?_⟩
    · intro dir member
      exact done.dirs dir (List.mem_filter.mp member).1
    · intro p
      have differ : p.text ≠ source := by
        rintro rfl
        have same := prefix_unique (prefix_self p) within
        exact apart (Or.inl (by rw [same]))
      rw [← done.packages p]
      simp [present, differ]
    · simp [extended]
    · exact List.forall_mem_cons.mpr ⟨⟨source, q.text, rfl⟩, quiet⟩

theorem moveAll_shuffled (within : ∀ source ∈ sources, q.text.isPrefixOf source = true)
    (done : Shuffled s r) : Shuffled s (sources.foldl (moveInto q) r) := by
  induction sources generalizing r with
  | nil => exact done
  | cons source sources ih =>
    obtain ⟨here, others⟩ := List.forall_mem_cons.mp within
    exact ih others (moveInto_shuffled here done)

/-- The directories after `mv source q`. -/
def renamed (source : Text) (q : Prog) (dirs : List Text) : List Text :=
  dirs.map fun dir => if dir = source then q.text else dir

/-- The glob `q*` stands for `source` alone, and that is not the package
directory. -/
def Renames (q : Prog) (dirs : List Text) (source : Text) : Prop :=
  candidates q dirs = [source] ∧ source ≠ q.text

theorem candidates_prefix (member : source ∈ candidates q dirs) : q.text.isPrefixOf source = true :=
  (List.mem_filter.mp member).2

theorem rename_succeeds (own : q.text.isPrefixOf name = true) (single : Renames q s.dirs source) :
    rename name q s = { s with
      dirs := renamed source q s.dirs, history := .moved source q.text :: s.history } := by
  unfold rename
  rw [if_pos own, single.1]
  simp [single.2, renamed]

theorem rename_fails (own : q.text.isPrefixOf name = true)
    (blocked : ∀ source, ¬Renames q s.dirs source) :
    (rename name q s).exited = true ∧ Shuffled s (rename name q s) := by
  unfold rename
  rw [if_pos own]
  split
  · exact ⟨rfl, (Shuffled.refl s).exit⟩
  · rename_i source single
    have same : source = q.text := by
      by_contra differ
      exact blocked source ⟨single, differ⟩
    rw [if_pos same]
    exact ⟨rfl, (Shuffled.refl s).exit⟩
  · refine ⟨rfl, ?_⟩
    have within : ∀ source ∈ candidates q s.dirs, q.text.isPrefixOf source = true :=
      fun source member => candidates_prefix member
    dsimp only
    split
    · exact (moveAll_shuffled within (Shuffled.refl s)).exit
    · exact (Shuffled.refl s).exit

theorem present_renamed (single : Renames q dirs source) (p : Prog) :
    present (renamed source q dirs) p = (present dirs p || p = q) := by
  have listed : source ∈ candidates q dirs := by
    rw [single.1]
    exact List.mem_singleton_self source
  have within := candidates_prefix listed
  have held : source ∈ dirs := (List.mem_filter.mp listed).1
  by_cases same : p = q
  · subst same
    have found : p.text ∈ renamed source p dirs := List.mem_map.mpr ⟨source, held, if_pos rfl⟩
    simp [present, found]
  · have foreign : p.text ≠ source := by
      rintro rfl
      exact same (prefix_unique (prefix_self p) within)
    have apart : p.text ≠ q.text := by
      intro equal
      exact same (prefix_unique (prefix_self p) (equal ▸ prefix_self q))
    have iff : p.text ∈ renamed source q dirs ↔ p.text ∈ dirs := by
      constructor
      · intro member
        obtain ⟨dir, there, equal⟩ := List.mem_map.mp member
        split at equal
        · exact absurd equal.symm apart
        · exact equal ▸ there
      · intro there
        exact List.mem_map.mpr ⟨p.text, there, if_neg foreign⟩
    simp [present, iff, same]

/-- The packages the loop visits before and after `q`. -/
def Prog.before (q : Prog) : List Prog := Prog.all.takeWhile (· ≠ q)
def Prog.after (q : Prog) : List Prog := (Prog.all.dropWhile (· ≠ q)).tail

theorem all_split (q : Prog) : Prog.all = q.before ++ q :: q.after := by
  cases q <;> rfl

theorem others_foreign (own : q.text.isPrefixOf name = true) :
    (∀ p ∈ q.before, p.text.isPrefixOf name = false) ∧
      ∀ p ∈ q.after, p.text.isPrefixOf name = false := by
  have apart : q ∉ q.before ∧ q ∉ q.after := by cases q <;> decide
  constructor
  all_goals
    intro p member
    by_contra matched
    have same := prefix_unique (by simpa using matched) own
    subst same
  · exact apart.1 member
  · exact apart.2 member

theorem visit_renames (own : q.text.isPrefixOf name = true) (alive : s.exited = false)
    (single : Renames q s.dirs source) :
    visit name s q = { s with
      dirs := renamed source q s.dirs
      history := .moved source q.text :: s.history
      prog := some q
      markers := s.markers.insert name } := by
  have here : q.text ∈ renamed source q s.dirs := by
    have found := present_renamed single q
    simpa [present] using found
  unfold visit
  rw [if_neg (by simp [alive]), rename_succeeds own single]
  simp [alive, here]

theorem visit_fails (own : q.text.isPrefixOf name = true) (alive : s.exited = false)
    (blocked : ∀ source, ¬Renames q s.dirs source) :
    (visit name s q).exited = true ∧ Shuffled s (visit name s q) := by
  have failed := rename_fails own blocked
  have same : visit name s q = rename name q s := by
    unfold visit
    rw [if_neg (by simp [alive])]
    simp [failed.1]
  rw [same]
  exact failed

private theorem lastPresent_split (found : present dirs q = true) (start : Option Prog) :
    lastPresent dirs q.after (some q) = lastPresent dirs Prog.all start := by
  rw [all_split q]
  simp [lastPresent, found]

private theorem insert_twice (markers : List Text) (name : Text) (often : Bool) :
    (if often then markers.insert name else markers).insert name = markers.insert name := by
  cases often <;> simp

/-- The pass that finds its tree: the tree takes the package's name and the
marker is set. -/
theorem sweep_renames (own : q.text.isPrefixOf name = true) (alive : s.exited = false)
    (single : Renames q s.dirs source) :
    Prog.all.foldl (visit name) s = { s with
      dirs := renamed source q s.dirs
      history := .moved source q.text :: s.history
      prog := lastPresent (renamed source q s.dirs) Prog.all s.prog
      markers := s.markers.insert name } := by
  obtain ⟨earlier, later⟩ := others_foreign own
  have found : present (renamed source q s.dirs) q = true := by simp [present_renamed single]
  have first : visit name (noticed name q.before s) q = { s with
      dirs := renamed source q s.dirs
      history := .moved source q.text :: s.history
      prog := some q
      markers := s.markers.insert name } := by
    rw [visit_renames own (by exact alive) (by exact single)]
    simp only [noticed, insert_twice]
  conv_lhs =>
    rw [all_split q, List.foldl_append, List.foldl_cons, sweep_others earlier alive, first,
      sweep_others later (by exact alive)]
  simp only [noticed, lastPresent_split found s.prog]
  simp

/-- The pass that ends in a failing `mv`: the marker is set if a package listed
earlier has a directory. -/
theorem sweep_fails (own : q.text.isPrefixOf name = true) (alive : s.exited = false)
    (blocked : ∀ source, ¬Renames q s.dirs source) :
    (Prog.all.foldl (visit name) s).exited = true ∧
      Shuffled (noticed name q.before s) (Prog.all.foldl (visit name) s) := by
  obtain ⟨earlier, -⟩ := others_foreign own
  have failed : (visit name (noticed name q.before s) q).exited = true ∧
      Shuffled (noticed name q.before s) (visit name (noticed name q.before s) q) :=
    visit_fails own alive blocked
  rw [all_split q, List.foldl_append, List.foldl_cons, sweep_others earlier alive,
    sweep_exited failed.1]
  exact failed

/-! ## The whole iteration -/

/-- The state in which the inner loop starts. -/
def loaded (t : Tarball) (s : State) : State :=
  tar t { s with history := .checked t.tgz t.digest :: s.history }

private theorem unpack_eq (t : Tarball) (s : State) : unpack t s =
    if (Prog.all.foldl (visit (basename t.tgz)) (loaded t s)).exited then
      Prog.all.foldl (visit (basename t.tgz)) (loaded t s)
    else patch (basename t.tgz) (Prog.all.foldl (visit (basename t.tgz)) (loaded t s)) := rfl

theorem unpack_renames (own : q.text.isPrefixOf (basename t.tgz) = true) (alive : s.exited = false)
    (single : Renames q (loaded t s).dirs source) :
    unpack t s = patch (basename t.tgz) { loaded t s with
      dirs := renamed source q (loaded t s).dirs
      history := .moved source q.text :: (loaded t s).history
      prog := lastPresent (renamed source q (loaded t s).dirs) Prog.all s.prog
      markers := s.markers.insert (basename t.tgz) } := by
  have swept := sweep_renames (s := loaded t s) own alive single
  rw [unpack_eq, swept]
  exact if_neg (by simp [loaded, tar, alive])

theorem unpack_foreign (foreign : ∀ p : Prog, p.text.isPrefixOf (basename t.tgz) = false)
    (alive : s.exited = false) :
    unpack t s = patch (basename t.tgz) (noticed (basename t.tgz) Prog.all (loaded t s)) := by
  have swept := sweep_others (s := loaded t s) (fun p (_ : p ∈ Prog.all) => foreign p) alive
  rw [unpack_eq, swept]
  exact if_neg (by simp [noticed, loaded, tar, alive])

theorem unpack_fails (own : q.text.isPrefixOf (basename t.tgz) = true) (alive : s.exited = false)
    (blocked : ∀ source, ¬Renames q (loaded t s).dirs source) :
    (unpack t s).exited = true ∧
      Shuffled (noticed (basename t.tgz) q.before (loaded t s)) (unpack t s) := by
  have swept := sweep_fails (s := loaded t s) own alive blocked
  have same : unpack t s = Prog.all.foldl (visit (basename t.tgz)) (loaded t s) := if_pos swept.1
  rw [same]
  exact swept

end Fdgw.Extract
