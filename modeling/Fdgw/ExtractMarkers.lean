import Fdgw.ExtractPatches

/-! When `.extract_N_done` can be trusted. The marker is set by the sight of any
package directory, whatever became of the tarball, so it means something only
where the iteration that set it went well. -/
namespace Fdgw.Extract
open Patterns TextLines Runs

variable {p q : Prog} {s r : State} {t : Tarball} {name distinfo : Text} {history : List Deed}

/-- The line gives the digest of exactly this file. -/
def Records (line tgz digest : Text) : Prop :=
  fields isBlank line = ["SHA1".toList, '(' :: tgz ++ [')'], ['='], digest]

def Recorded (distinfo tgz digest : Text) : Prop :=
  ∃ line ∈ (readLines distinfo).map chomp, Records line tgz digest

/-- In one iteration the digest of `N.tar.gz` was found to be a recorded one, the
file was unpacked and its tree became the package directory. -/
def Justified (distinfo : Text) (history : List Deed) (name : Text) : Prop :=
  ∃ (digest top : Text) (tops : List Text) (p : Prog),
    [.moved top p.text, .unpacked (name ++ suffix) tops true, .checked (name ++ suffix) (some digest)]
      <:+: history ∧
    Recorded distinfo (name ++ suffix) digest ∧ top ∈ tops ∧ p.text.isPrefixOf name = true

def MarkersSound (distinfo : Text) (s : State) : Prop :=
  ∀ name ∈ s.markers, Justified distinfo s.history name

/-! ## The checksum gate -/

theorem substituted_line {word : Text} (free : '\n' ∉ word) : substituted (word ++ ['\n']) = word := by
  unfold substituted
  rw [List.rdropWhile_concat_pos _ _ _ (by simp)]
  apply List.rdropWhile_eq_self_iff.mpr
  intro held last
  have newline : word.getLast held = '\n' := by simpa using last
  exact free (newline ▸ List.getLast_mem held)

theorem substituted_spec (output : Text) :
    ∃ newlines, output = substituted output ++ newlines ∧ ∀ c ∈ newlines, c = '\n' := by
  refine ⟨output.rtakeWhile (· = '\n'), (List.rdropWhile_append_rtakeWhile ..).symm, ?_⟩
  intro c member
  simpa using List.mem_rtakeWhile_imp member

theorem fourth_free (line : Text) : '\n' ∉ fourth line := by
  unfold fourth
  rw [List.getD_eq_getElem?_getD]
  cases field : (fields isBlank line)[3]? with
  | none => simp
  | some word => exact fields_free (List.mem_of_getElem? field) '\n' rfl

/-- When a digest was printed and the gate passes, the digest stands in the
first line that `grep` found. -/
theorem gate_digest (passes : gate distinfo t = true) (read : t.digest = some digest) :
    ∃ line, (grep distinfo t.tgz).head? = some line ∧ fourth line = digest := by
  obtain ⟨visible, free⟩ := t.printed digest read
  have same : checksum0 distinfo t.tgz = digest := by
    have equal : checksum0 distinfo t.tgz = checksum1 t := by simpa [gate] using passes
    rw [equal, checksum1, read]
    exact substituted_line free
  unfold checksum0 at same
  cases lines : grep distinfo t.tgz with
  | nil =>
    rw [lines] at same
    exact absurd same.symm visible
  | cons line rest =>
    refine ⟨line, rfl, ?_⟩
    rw [lines] at same
    obtain ⟨newlines, output, all⟩ := substituted_spec
      ((line :: rest).flatMap fun line => fourth line ++ ['\n'])
    rw [same, List.flatMap_cons, List.append_assoc, List.singleton_append] at output
    cases newlines with
    | nil =>
      rw [List.append_nil] at output
      exact absurd (output ▸ List.mem_append_right _ List.mem_cons_self) free
    | cons c newlines =>
      have newline : c = '\n' := all c List.mem_cons_self
      subst newline
      have split := congrArg (List.splitOn '\n') output
      rw [List.splitOn_append_cons_self_of_not_mem (fourth_free line),
        List.splitOn_append_cons_self_of_not_mem free] at split
      exact (List.cons.inj split).1

/-! ## One tarball -/

/-- The inner loop will see a package directory and set the marker. -/
def Touches (t : Tarball) (s : State) : Prop :=
  (∃ q : Prog, q.text.isPrefixOf (basename t.tgz) = true ∧
    (q.before.any (present (loaded t s).dirs) = true ∨ ∃ source, Renames q (loaded t s).dirs source)) ∨
  ((∀ q : Prog, q.text.isPrefixOf (basename t.tgz) = false) ∧
    Prog.all.any (present (loaded t s).dirs) = true)

/-- The file is there, `distinfo` speaks of it and of nothing else first, and it
unpacks into the only directory of its package. -/
structure Proper (distinfo : Text) (t : Tarball) (s : State) (q : Prog) (top : Text) : Prop where
  named : q.text.isPrefixOf (basename t.tgz) = true
  suffixed : t.tgz = basename t.tgz ++ suffix
  read : t.digest.isSome = true
  recorded : ∃ line digest, (grep distinfo t.tgz).head? = some line ∧ Records line t.tgz digest
  complete : t.complete = true
  single : t.tops.filter q.text.isPrefixOf = [top]
  versioned : top ≠ q.text
  alone : ∀ dir ∈ s.dirs, q.text.isPrefixOf dir = false

/-- A marker is set for a proper tarball only. -/
def Trusted (distinfo : Text) (s : State) : Event → Prop
  | .invoke => True
  | .tarball t => s.exited = false → plain t.tgz = true ∧
      (basename t.tgz ∉ s.markers → gate distinfo t = true → Touches t s →
        ∃ q top, Proper distinfo t s q top)

theorem Justified.extend (found : Justified distinfo history name) (longer : history <:+ later) :
    Justified distinfo later name := by
  obtain ⟨digest, top, tops, p, deeds, rest⟩ := found
  exact ⟨digest, top, tops, p, deeds.trans longer.isInfix, rest⟩

theorem patch_markers (name : Text) (s : State) : (patch name s).markers = s.markers := by
  unfold patch
  split <;> rfl

theorem patch_extends (name : Text) (grown : history <:+ s.history) :
    history <:+ (patch name s).history := by
  unfold patch
  split
  · exact grown
  · exact grown.trans (List.suffix_append _ _)

theorem Proper.recorded_digest (proper : Proper distinfo t s q top) (passes : gate distinfo t = true) :
    ∃ digest, t.digest = some digest ∧ Recorded distinfo t.tgz digest := by
  obtain ⟨digest, read⟩ := Option.isSome_iff_exists.mp proper.read
  obtain ⟨line, written, first, records⟩ := proper.recorded
  obtain ⟨other, second, equal⟩ := gate_digest passes read
  rw [first] at second
  cases second
  have same : written = digest := by
    rw [← equal, fourth, records]
    rfl
  subst same
  refine ⟨written, read, line, ?_, records⟩
  exact (List.mem_filter.mp (List.mem_of_head? first)).1

theorem Proper.renames (proper : Proper distinfo t s q top) : Renames q (loaded t s).dirs top := by
  refine ⟨?_, proper.versioned⟩
  have listed : top ∈ t.tops.filter q.text.isPrefixOf := by
    rw [proper.single]
    exact List.mem_singleton_self top
  have within := (List.mem_filter.mp listed).2
  have absent : top ∉ s.dirs := by
    intro member
    simp [proper.alone top member] at within
  have none : s.dirs.filter q.text.isPrefixOf = [] := by
    apply List.filter_eq_nil_iff.mpr
    intro dir member
    simp [proper.alone dir member]
  have new : (t.tops.filter (· ∉ s.dirs)).filter q.text.isPrefixOf = [top] := by
    rw [List.filter_comm, proper.single]
    simp [absent]
  simp only [candidates, loaded, tar, List.filter_append, none, List.nil_append]
  exact new

/-- A proper tarball earns its marker. -/
theorem unpack_proper (sound : MarkersSound distinfo s) (alive : s.exited = false)
    (passes : gate distinfo t = true) (proper : Proper distinfo t s q top) :
    MarkersSound distinfo (unpack t s) := by
  obtain ⟨digest, read, recorded⟩ := proper.recorded_digest passes
  have whole : (loaded t s).history =
      .unpacked t.tgz t.tops true :: .checked t.tgz (some digest) :: s.history := by
    simp [loaded, tar, proper.complete, read]
  have longer : .moved top q.text :: (loaded t s).history <:+ (unpack t s).history := by
    rw [unpack_renames proper.named alive proper.renames]
    apply patch_extends
    exact List.suffix_refl _
  intro name marked
  rw [unpack_renames proper.named alive proper.renames, patch_markers] at marked
  rcases List.mem_insert_iff.mp marked with rfl | old
  · have listed : top ∈ t.tops.filter q.text.isPrefixOf := by
      rw [proper.single]
      exact List.mem_singleton_self top
    rw [whole] at longer
    refine Justified.extend ⟨digest, top, t.tops, q, ?_, ?_, (List.mem_filter.mp listed).1,
      proper.named⟩ longer
    · rw [← proper.suffixed]
      exact ⟨[], s.history, rfl⟩
    · rw [← proper.suffixed]
      exact recorded
  · apply (sound name old).extend
    refine List.IsSuffix.trans ?_ longer
    rw [whole]
    exact List.suffix_append [_, _, _] _

/-- A tarball for which no package directory comes into sight sets no marker. -/
theorem unpack_unseen (sound : MarkersSound distinfo s) (alive : s.exited = false)
    (unseen : ¬Touches t s) : MarkersSound distinfo (unpack t s) := by
  have quiet : (unpack t s).markers = s.markers ∧ s.history <:+ (unpack t s).history := by
    have grown : s.history <:+ (loaded t s).history := List.suffix_append [_, _] _
    by_cases own : ∃ q : Prog, q.text.isPrefixOf (basename t.tgz) = true
    · obtain ⟨q, named⟩ := own
      have none : q.before.any (present (loaded t s).dirs) = false := by
        by_contra seen
        exact unseen (Or.inl ⟨q, named, Or.inl (by simpa using seen)⟩)
      have blocked : ∀ source, ¬Renames q (loaded t s).dirs source := by
        intro source renames
        exact unseen (Or.inl ⟨q, named, Or.inr ⟨source, renames⟩⟩)
      obtain ⟨-, done⟩ := unpack_fails named alive blocked
      obtain ⟨deeds, extended, -⟩ := done.history
      refine ⟨?_, ?_⟩
      · rw [done.markers, noticed, none]
        rfl
      · rw [extended]
        exact grown.trans (List.suffix_append _ _)
    · have foreign : ∀ q : Prog, q.text.isPrefixOf (basename t.tgz) = false := by
        intro q
        by_contra named
        exact own ⟨q, by simpa using named⟩
      have none : Prog.all.any (present (loaded t s).dirs) = false := by
        by_contra seen
        exact unseen (Or.inr ⟨foreign, by simpa using seen⟩)
      rw [unpack_foreign foreign alive]
      refine ⟨?_, patch_extends _ grown⟩
      rw [patch_markers, noticed, none]
      rfl
  intro name marked
  rw [quiet.1] at marked
  exact (sound name marked).extend quiet.2

theorem extract_sound (sound : MarkersSound distinfo s) (alive : s.exited = false)
    (trusted : Trusted distinfo s (.tarball t)) (other : Tarball → State → State) :
    MarkersSound distinfo (extract other distinfo t s) := by
  obtain ⟨simple, proper⟩ := trusted alive
  unfold extract
  rw [if_neg (by simp [simple])]
  by_cases marked : basename t.tgz ∈ s.markers
  · rw [if_pos marked]
    exact sound
  · rw [if_neg marked]
    by_cases passes : gate distinfo t = true
    · rw [if_pos passes]
      by_cases seen : Touches t s
      · obtain ⟨q, top, fits⟩ := proper marked passes seen
        exact unpack_proper sound alive passes fits
      · exact unpack_unseen sound alive seen
    · rw [if_neg passes]
      exact sound

/-! ## Runs -/

/-- In a run whose markers are set for proper tarballs only, every marker tells
the truth. -/
theorem markers_justified (other : Tarball → State → State) (distinfo : Text) (events : List Event)
    (trusted : Guarded (step other distinfo) (Trusted distinfo) initial events)
    (ran : run (step other distinfo) initial events = some s) : MarkersSound distinfo s := by
  have start : MarkersSound distinfo initial := by
    intro name marked
    cases marked
  refine guarded_invariant ?_ start trusted ran
  intro s e r sound fine ran
  cases e with
  | invoke =>
    cases ran
    exact sound
  | tarball t =>
    cases ran
    cases alive : s.exited with
    | true => exact sound
    | false => exact extract_sound sound alive fine other

theorem racoon_proper : Proper shippedDistinfo racoonTarball { initial with exited := false } .racoon
    "racoon-20020507a".toList := by
  refine ⟨by decide +kernel, by decide +kernel, rfl, ?_, rfl, by decide +kernel, by decide +kernel, ?_⟩
  · exact ⟨"SHA1 (racoon-20020507a.tar.gz) = 9ecf5fa5660362a967bf6e48499e834eab3a7181".toList,
      "9ecf5fa5660362a967bf6e48499e834eab3a7181".toList, by decide +kernel, by unfold Records; decide +kernel⟩
  · intro dir member
    cases member

/-- The marker of a first racoon build is sound. -/
theorem markers_justified_racoon : ∃ s, run (step (fun _ s => s) shippedDistinfo) initial
    [.invoke, .tarball racoonTarball] = some s ∧ "racoon-20020507a".toList ∈ s.markers ∧
    MarkersSound shippedDistinfo s := by
  refine ⟨_, rfl, by decide +kernel, markers_justified (fun _ s => s) shippedDistinfo
    [.invoke, .tarball racoonTarball] ?_ rfl⟩
  refine ⟨trivial, ?_⟩
  intro s started
  cases started
  refine ⟨?_, fun _ _ => trivial⟩
  intro _
  exact ⟨by decide +kernel, fun _ _ _ => ⟨.racoon, _, racoon_proper⟩⟩

/-- A zebra release that could not be fetched and that `distinfo` does not know. -/
def missingZebra : Tarball where
  tgz := "zebra-0.93.tar.gz".toList
  digest := none
  tops := []
  complete := false
  printed := by simp

def Deed.checkedSome (tgz : Text) : Deed → Bool
  | .checked other (some _) => other = tgz
  | _ => false

/-- After a build with squid, the missing tarball is marked as extracted. -/
theorem missing_tarball_marked : ∃ s, run (step (fun _ s => s) shippedDistinfo) initial
    [.invoke, .tarball squidTarball, .invoke, .tarball missingZebra] = some s ∧
    "zebra-0.93".toList ∈ s.markers ∧ ¬MarkersSound shippedDistinfo s := by
  refine ⟨_, rfl, by decide +kernel, ?_⟩
  intro sound
  obtain ⟨digest, top, tops, p, deeds, -⟩ := sound "zebra-0.93".toList (by decide +kernel)
  have checked := deeds.subset (List.mem_cons_of_mem _ (List.mem_cons_of_mem _ List.mem_cons_self))
  have seen := List.any_eq_true.mpr ⟨_, checked,
    show Deed.checkedSome "zebra-0.93.tar.gz".toList _ = true from rfl⟩
  exact absurd seen (by decide +kernel)

end Fdgw.Extract
