import Fdgw.ExtractLoop

/-! Which trees `extract.sh` patches. The script patches the last package it
finds a directory of, so the result depends on the packages that are already
there: exactly one order of extraction patches racoon once. -/
namespace Fdgw.Extract
open Patterns TextLines Runs

variable {p q : Prog} {s r : State} {t : Tarball} {name : Text}

/-- A release of a package: its name starts with the package's, and it unpacks
completely into one directory whose name extends the package's. -/
structure Release (t : Tarball) (p : Prog) : Prop where
  plain : plain t.tgz = true
  named : p.text.isPrefixOf (basename t.tgz) = true
  complete : t.complete = true
  unpacks : ∃ top, t.tops = [top] ∧ p.text.isPrefixOf top = true ∧ top ≠ p.text

/-- The patch runs so far, latest first: for which tarball, in whose tree, which
patch. -/
def patchLog (history : List Deed) : List (Text × Prog × Text) :=
  history.filterMap fun
    | .patched name p patch => some (name, p, patch)
    | _ => none

/-- The patches applied in the tree of a package, in order. -/
def patchesIn (p : Prog) (history : List Deed) : List Text :=
  (((patchLog history).filter fun run => run.2.1 = p).map fun run => run.2.2).reverse

/-- Every extracted package with patches has had them applied once, and patches
were run only in the tree of the package being extracted. -/
structure PatchedOnce (s : State) : Prop where
  once : ∀ p, present s.dirs p = true → patchSet p ≠ [] → patchesIn p s.history = patchSet p
  own : ∀ name p patch, (name, p, patch) ∈ patchLog s.history → p.text.isPrefixOf name = true

/-! ## One tarball -/

/-- Only a package's own directory makes other directories with its name. -/
def PrefixClosed (s : State) : Prop :=
  ∀ p : Prog, ∀ dir ∈ s.dirs, p.text.isPrefixOf dir = true → present s.dirs p = true

/-- Nothing happened that concerns packages or patches. -/
structure Idle (s r : State) : Prop where
  packages : ∀ p, present r.dirs p = present s.dirs p
  log : patchLog r.history = patchLog s.history

/-- Package `q` got its directory, and racoon was patched if it is there and
pim6sd is not. -/
structure Gained (q : Prog) (name : Text) (s r : State) : Prop where
  fresh : present s.dirs q = false
  packages : ∀ p, present r.dirs p = (present s.dirs p || p = q)
  log : patchLog r.history =
    (if present r.dirs .racoon && !present r.dirs .pim6sd then
      ((patchSet .racoon).map fun patch => (name, .racoon, patch)).reverse else []) ++
    patchLog s.history

theorem lastPresent_racoon (held : present dirs q = true) (start : Option Prog) :
    lastPresent dirs Prog.all start = some .racoon ↔
      (present dirs .racoon && !present dirs .pim6sd) = true := by
  have any : (present dirs .squid || present dirs .jftpgw || present dirs .zebra ||
      present dirs .racoon || present dirs .pim6sd) = true := by
    cases q <;> simp [held]
  simp only [lastPresent, Prog.all, List.foldl_cons, List.foldl_nil]
  revert any
  cases present dirs .squid <;> cases present dirs .jftpgw <;> cases present dirs .zebra <;>
    cases present dirs .racoon <;> cases present dirs .pim6sd <;> simp

theorem patchLog_patch (aim : (s.prog = some .racoon ↔ flag = true)) (name : Text) :
    patchLog (patch name s).history =
      (if flag then ((patchSet .racoon).map fun patch => (name, .racoon, patch)).reverse else []) ++
      patchLog s.history := by
  unfold patch
  split
  · rename_i none
    have off : flag = false := by simpa [none] using aim
    simp [off]
  · rename_i p chosen
    rw [chosen] at aim
    cases p with
    | racoon =>
      have on : flag = true := aim.mp rfl
      simp [on, patchLog, patchSet]
    | _ =>
      have off : flag = false := by simpa using aim
      simp [off, patchSet]

theorem patch_dirs (name : Text) (s : State) : (patch name s).dirs = s.dirs := by
  unfold patch
  split <;> rfl

theorem patchLog_quiet {deeds : List Deed} (quiet : ∀ deed ∈ deeds, ∃ source target, deed = .nested source target)
    (history : List Deed) : patchLog (deeds ++ history) = patchLog history := by
  induction deeds with
  | nil => rfl
  | cons deed deeds ih =>
    obtain ⟨⟨source, target, rfl⟩, others⟩ := List.forall_mem_cons.mp quiet
    exact ih others

theorem fresh_renames (closed : PrefixClosed s) (fresh : present s.dirs q = false)
    (within : q.text.isPrefixOf top = true) (versioned : top ≠ q.text) (single : t.tops = [top]) :
    top ∉ s.dirs ∧ Renames q (loaded t s).dirs top := by
  have none : ∀ dir ∈ s.dirs, q.text.isPrefixOf dir = false := by
    intro dir member
    by_contra matched
    have held := closed q dir member (by simpa using matched)
    simp [fresh] at held
  have absent : top ∉ s.dirs := by
    intro member
    simp [none top member] at within
  refine ⟨absent, ?_, versioned⟩
  have empty : s.dirs.filter q.text.isPrefixOf = [] := by
    apply List.filter_eq_nil_iff.mpr
    intro dir member
    simp [none dir member]
  simp [candidates, loaded, tar, single, absent, empty, within]

theorem taken_blocked (taken : present s.dirs q = true) (source : Text) :
    ¬Renames q (loaded t s).dirs source := by
  rintro ⟨single, differ⟩
  have held : q.text ∈ s.dirs := by simpa [present] using taken
  have listed : q.text ∈ candidates q (loaded t s).dirs := by
    refine List.mem_filter.mpr ⟨?_, prefix_self q⟩
    simp [loaded, tar, held]
  rw [single] at listed
  exact differ (List.mem_singleton.mp listed).symm

theorem loaded_packages (release : Release t q) (p : Prog) :
    present (loaded t s).dirs p = present s.dirs p := by
  obtain ⟨top, single, within, versioned⟩ := release.unpacks
  have differ : p.text ≠ top := by
    rintro rfl
    have same := prefix_unique (prefix_self p) within
    exact versioned (by rw [same])
  simp [present, loaded, tar, single, differ]

theorem loaded_closed (closed : PrefixClosed s) (release : Release t q)
    (kept : ∀ p, present s.dirs p = true → present dirs p = true) (here : present dirs q = true)
    (member : dir ∈ (loaded t s).dirs) (matched : p.text.isPrefixOf dir = true) :
    present dirs p = true := by
  obtain ⟨top, single, within, -⟩ := release.unpacks
  have origin : dir ∈ s.dirs ∨ dir = top := by
    rcases List.mem_append.mp member with old | new
    · exact Or.inl old
    · rw [single] at new
      exact Or.inr (List.mem_singleton.mp (List.mem_filter.mp new).1)
  rcases origin with old | rfl
  · exact kept p (closed p dir old matched)
  · rw [prefix_unique matched within]
    exact here

/-- A release of a package that is not there yet is put in its place. -/
theorem unpack_gained (closed : PrefixClosed s) (alive : s.exited = false) (release : Release t q)
    (fresh : present s.dirs q = false) :
    Gained q (basename t.tgz) s (unpack t s) ∧ PrefixClosed (unpack t s) := by
  obtain ⟨top, single, within, versioned⟩ := release.unpacks
  obtain ⟨absent, renames⟩ := fresh_renames closed fresh within versioned single
  have packages : ∀ p, present (renamed top q (loaded t s).dirs) p = (present s.dirs p || p = q) := by
    intro p
    rw [present_renamed renames, loaded_packages release]
  have here : present (renamed top q (loaded t s).dirs) q = true := by simp [packages]
  have dirs : (unpack t s).dirs = renamed top q (loaded t s).dirs := by
    rw [unpack_renames release.named alive renames, patch_dirs]
  have log := patchLog_patch (s := { loaded t s with
      dirs := renamed top q (loaded t s).dirs
      history := .moved top q.text :: (loaded t s).history
      prog := lastPresent (renamed top q (loaded t s).dirs) Prog.all s.prog
      markers := s.markers.insert (basename t.tgz) })
    (lastPresent_racoon here s.prog) (basename t.tgz)
  rw [← unpack_renames release.named alive renames] at log
  refine ⟨⟨fresh, ?_, ?_⟩, ?_⟩
  · rw [dirs]
    exact packages
  · rw [dirs]
    exact log
  · intro p dir member matched
    rw [dirs] at member ⊢
    obtain ⟨old, there, equal⟩ := List.mem_map.mp member
    split at equal
    · rw [← equal] at matched
      rw [prefix_unique matched (prefix_self q)]
      exact here
    · subst equal
      apply loaded_closed closed release ?_ here there matched
      intro p held
      simp [packages, held]

/-- A second release of a package ends the script. -/
theorem unpack_idle (closed : PrefixClosed s) (alive : s.exited = false) (release : Release t q)
    (taken : present s.dirs q = true) : Idle s (unpack t s) ∧ PrefixClosed (unpack t s) := by
  obtain ⟨-, done⟩ := unpack_fails release.named alive (taken_blocked taken)
  have packages : ∀ p, present (unpack t s).dirs p = present s.dirs p := by
    intro p
    rw [done.packages]
    exact loaded_packages release p
  refine ⟨⟨packages, ?_⟩, ?_⟩
  · obtain ⟨deeds, extended, quiet⟩ := done.history
    rw [extended, patchLog_quiet quiet]
    rfl
  · intro p dir member matched
    have here : present (unpack t s).dirs q = true := by rw [packages, taken]
    apply loaded_closed closed release ?_ here (done.dirs dir member) matched
    intro p held
    rw [packages, held]

/-- What handling a release can do. -/
theorem extract_cases (closed : PrefixClosed s) (alive : s.exited = false) (release : Release t q)
    (passes : gate distinfo t = true) (other : Tarball → State → State) :
    PrefixClosed (extract other distinfo t s) ∧
      ((basename t.tgz ∉ s.markers ∧ Gained q (basename t.tgz) s (extract other distinfo t s)) ∨
        ((basename t.tgz ∈ s.markers ∨ present s.dirs q = true) ∧
          Idle s (extract other distinfo t s))) := by
  unfold extract
  rw [if_neg (by simp [release.plain])]
  by_cases marked : basename t.tgz ∈ s.markers
  · rw [if_pos marked]
    exact ⟨closed, Or.inr ⟨Or.inl marked, fun _ => rfl, rfl⟩⟩
  · rw [if_neg marked, if_pos passes]
    cases taken : present s.dirs q with
    | false =>
      obtain ⟨gained, still⟩ := unpack_gained closed alive release taken
      exact ⟨still, Or.inl ⟨marked, gained⟩⟩
    | true =>
      obtain ⟨idle, still⟩ := unpack_idle closed alive release taken
      exact ⟨still, Or.inr ⟨Or.inr rfl, idle⟩⟩

/-! ## Runs -/

/-- The package may be extracted now without the wrong tree being patched or
racoon left unpatched. -/
def Undisturbed (dirs : List Text) : Prog → Prop
  | .racoon => present dirs .pim6sd = false
  | .pim6sd => True
  | _ => present dirs .racoon = false ∨ present dirs .pim6sd = true

/-- Only a package that is new to `PKG_DIR` matters. -/
def Safe (s : State) : Event → Prop
  | .invoke => True
  | .tarball t => ∀ q : Prog, q.text.isPrefixOf (basename t.tgz) = true → s.exited = false →
      basename t.tgz ∉ s.markers → present s.dirs q = false → Undisturbed s.dirs q

/-- The argument of every event is a release whose checksum is right. -/
def Genuine (distinfo : Text) (e : Event) : Prop :=
  ∀ t, e = .tarball t → ∃ q, Release t q ∧ gate distinfo t = true

structure Clean (s : State) : Prop where
  closed : PrefixClosed s
  patched : PatchedOnce s
  untouched : ∀ p, present s.dirs p = false → patchesIn p s.history = []

/-- A foreign tree was patched, or racoon will never be. -/
structure Spoiled (s : State) : Prop where
  closed : PrefixClosed s
  reason : (∃ name p patch, (name, p, patch) ∈ patchLog s.history ∧ p.text.isPrefixOf name = false) ∨
    (present s.dirs .racoon = true ∧ present s.dirs .pim6sd = true ∧
      patchesIn .racoon s.history = [])

theorem Idle.patchesIn (idle : Idle s r) (p : Prog) :
    patchesIn p r.history = patchesIn p s.history := by
  rw [Extract.patchesIn, idle.log, Extract.patchesIn]

theorem Gained.patchesIn (gained : Gained q name s r) (p : Prog) :
    patchesIn p r.history = patchesIn p s.history ++
      if p = .racoon ∧ (present r.dirs .racoon && !present r.dirs .pim6sd) = true then
        patchSet .racoon else [] := by
  rw [Extract.patchesIn, gained.log, Extract.patchesIn, List.filter_append, List.map_append,
    List.reverse_append]
  congr 1
  by_cases same : p = .racoon
  · subst same
    cases present r.dirs .racoon && !present r.dirs .pim6sd <;> simp [patchSet]
  · cases present r.dirs .racoon && !present r.dirs .pim6sd <;> simp [same, Ne.symm same]

/-- Extracting an undisturbed package patches racoon exactly when it is racoon. -/
theorem Gained.patches_iff (gained : Gained q name s r) (fine : Undisturbed s.dirs q) :
    (present r.dirs .racoon && !present r.dirs .pim6sd) = true ↔ q = .racoon := by
  rw [gained.packages, gained.packages]
  cases q with
  | racoon => simpa [Undisturbed] using fine
  | pim6sd => simp
  | _ => rcases fine with absent | held <;> simp [*]

theorem patchSet_racoon (some : patchSet p ≠ []) : p = .racoon := by
  cases p <;> first | rfl | exact absurd rfl some

theorem Clean.gained (clean : Clean s) (gained : Gained q name s r)
    (own : q.text.isPrefixOf name = true) (fine : Undisturbed s.dirs q) (closed : PrefixClosed r) :
    Clean r := by
  have patches := gained.patches_iff fine
  refine ⟨closed, ⟨?_, ?_⟩, ?_⟩
  · intro p held some
    have same := patchSet_racoon some
    subst same
    rw [gained.patchesIn]
    by_cases racoon : q = .racoon
    · subst racoon
      rw [clean.untouched _ gained.fresh, if_pos ⟨rfl, patches.mpr rfl⟩, List.nil_append]
    · have before : present s.dirs .racoon = true := by
        rw [gained.packages] at held
        simpa [Ne.symm racoon] using held
      rw [clean.patched.once _ before some, if_neg fun both => racoon (patches.mp both.2),
        List.append_nil]
  · intro other p patch member
    rw [gained.log] at member
    rcases List.mem_append.mp member with new | old
    · split at new
      · rename_i here
        have racoon := patches.mp here
        obtain ⟨file, -, equal⟩ := List.mem_map.mp (List.mem_reverse.mp new)
        cases equal
        rw [← racoon]
        exact own
      · cases new
    · exact clean.patched.own other p patch old
  · intro p missing
    have absent : present s.dirs p = false ∧ p ≠ q := by
      rw [gained.packages] at missing
      simpa using missing
    have quiet : ¬(p = .racoon ∧ (present r.dirs .racoon && !present r.dirs .pim6sd) = true) := by
      rintro ⟨racoon, here⟩
      exact absent.2 (racoon.trans (patches.mp here).symm)
    rw [gained.patchesIn, clean.untouched p absent.1, if_neg quiet, List.nil_append]

theorem Clean.idle (clean : Clean s) (idle : Idle s r) (closed : PrefixClosed r) : Clean r := by
  refine ⟨closed, ⟨?_, ?_⟩, ?_⟩
  · intro p held some
    rw [idle.packages] at held
    rw [idle.patchesIn]
    exact clean.patched.once p held some
  · rw [idle.log]
    exact clean.patched.own
  · intro p missing
    rw [idle.packages] at missing
    rw [idle.patchesIn]
    exact clean.untouched p missing

theorem Clean.spoiled (clean : Clean s) (gained : Gained q name s r)
    (own : q.text.isPrefixOf name = true) (disturbed : ¬Undisturbed s.dirs q)
    (closed : PrefixClosed r) : Spoiled r := by
  refine ⟨closed, ?_⟩
  by_cases racoon : q = .racoon
  · subst racoon
    have pim6sd : present s.dirs .pim6sd = true := by simpa [Undisturbed] using disturbed
    have after : present r.dirs .pim6sd = true := by simp [gained.packages, pim6sd]
    refine Or.inr ⟨by simp [gained.packages], after, ?_⟩
    rw [gained.patchesIn, clean.untouched _ gained.fresh, if_neg (by simp [after]), List.nil_append]
  · have before : present s.dirs .racoon = true ∧ present s.dirs .pim6sd = false ∧ q ≠ .pim6sd := by
      cases q <;> simp_all [Undisturbed]
    have now : (present r.dirs .racoon && !present r.dirs .pim6sd) = true := by
      simp [gained.packages, before, Ne.symm before.2.2]
    refine Or.inl ⟨name, .racoon, "patch-aa".toList, ?_, ?_⟩
    · rw [gained.log, if_pos now]
      exact List.mem_append_left _ (List.mem_reverse.mpr (List.mem_cons_self))
    · by_contra matched
      exact racoon (prefix_unique own (by simpa using matched))

theorem Spoiled.idle (spoiled : Spoiled s) (idle : Idle s r) (closed : PrefixClosed r) :
    Spoiled r := by
  refine ⟨closed, ?_⟩
  rw [idle.packages, idle.packages, idle.patchesIn, idle.log]
  exact spoiled.reason

theorem Spoiled.gained (spoiled : Spoiled s) (gained : Gained q name s r) (closed : PrefixClosed r) :
    Spoiled r := by
  refine ⟨closed, ?_⟩
  rcases spoiled.reason with ⟨other, p, patch, member, foreign⟩ | ⟨racoon, pim6sd, missing⟩
  · refine Or.inl ⟨other, p, patch, ?_, foreign⟩
    rw [gained.log]
    exact List.mem_append_right _ member
  · have after : present r.dirs .pim6sd = true := by simp [gained.packages, pim6sd]
    refine Or.inr ⟨by simp [gained.packages, racoon], after, ?_⟩
    rw [gained.patchesIn, missing, if_neg (by simp [after]), List.nil_append]

theorem Spoiled.not_patchedOnce (spoiled : Spoiled s) : ¬PatchedOnce s := by
  intro patched
  rcases spoiled.reason with ⟨other, p, patch, member, foreign⟩ | ⟨racoon, -, missing⟩
  · have own := patched.own other p patch member
    simp [foreign] at own
  · have once := patched.once .racoon racoon (by simp [patchSet])
    simp [missing, patchSet] at once

/-- What one event does to the packages and the patches. -/
theorem step_cases (closed : PrefixClosed s) (genuine : Genuine distinfo e)
    (ran : step other distinfo s e = some r) :
    PrefixClosed r ∧ (Idle s r ∧ Safe s e ∨ ∃ (t : Tarball) (q : Prog), e = .tarball t ∧
      q.text.isPrefixOf (basename t.tgz) = true ∧ Gained q (basename t.tgz) s r ∧
      (Safe s e ↔ Undisturbed s.dirs q)) := by
  cases e with
  | invoke =>
    cases ran
    exact ⟨closed, Or.inl ⟨⟨fun _ => rfl, rfl⟩, trivial⟩⟩
  | tarball t =>
    obtain ⟨q, release, passes⟩ := genuine t rfl
    cases ran
    cases alive : s.exited with
    | true => exact ⟨closed, Or.inl ⟨⟨fun _ => rfl, rfl⟩, fun _ _ running => by simp [alive] at running⟩⟩
    | false =>
      obtain ⟨still, ⟨unmarked, gained⟩ | ⟨settled, idle⟩⟩ :=
        extract_cases closed alive release passes other
      · refine ⟨still, Or.inr ⟨t, q, rfl, release.named, gained, ?_⟩⟩
        constructor
        · intro safe
          exact safe q release.named alive unmarked gained.fresh
        · intro fine p named _ _ _
          rw [prefix_unique named release.named]
          exact fine
      · refine ⟨still, Or.inl ⟨idle, ?_⟩⟩
        intro p named _ unmarked fresh
        rw [prefix_unique named release.named] at fresh
        rcases settled with marked | taken
        · exact absurd marked unmarked
        · simp [taken] at fresh

theorem initial_clean : Clean initial := by
  refine ⟨?_, ⟨?_, ?_⟩, ?_⟩
  · intro p dir member
    cases member
  · intro p held
    simp [present, initial] at held
  · intro name p patch member
    cases member
  · intro p _
    rfl

/-- A sequence of invocations leaves every package patched once and only in its
own tree exactly when each extraction found the other packages out of its way. -/
theorem patched_once_iff (other : Tarball → State → State) (distinfo : Text) (events : List Event)
    (genuine : ∀ e ∈ events, Genuine distinfo e)
    (ran : run (step other distinfo) initial events = some s) :
    PatchedOnce s ↔ Guarded (step other distinfo) Safe initial events := by
  have decided : (Guarded (step other distinfo) Safe initial events ∧ Clean s) ∨
      (¬Guarded (step other distinfo) Safe initial events ∧ Spoiled s) := by
    refine guarded_decides ?_ ?_ ?_ genuine initial_clean ran
    · intro s e r here clean safe ran
      obtain ⟨closed, ⟨idle, -⟩ | ⟨t, q, -, own, gained, meaning⟩⟩ := step_cases clean.closed here ran
      · exact clean.idle idle closed
      · exact clean.gained gained own (meaning.mp safe) closed
    · intro s e r here clean unfit ran
      obtain ⟨closed, ⟨-, safe⟩ | ⟨t, q, -, own, gained, meaning⟩⟩ := step_cases clean.closed here ran
      · exact absurd safe unfit
      · exact clean.spoiled gained own (mt meaning.mpr unfit) closed
    · intro s e r here spoiled ran
      obtain ⟨closed, ⟨idle, -⟩ | ⟨t, q, -, -, gained, -⟩⟩ := step_cases spoiled.closed here ran
      · exact spoiled.idle idle closed
      · exact spoiled.gained gained closed
  rcases decided with ⟨guarded, clean⟩ | ⟨unguarded, spoiled⟩
  · exact iff_of_true clean.patched guarded
  · exact iff_of_false spoiled.not_patchedOnce unguarded

/-! ## Two builds that share `PKG_DIR` -/

/-- The two lines of `src/distinfo` that matter here. -/
def shippedDistinfo : Text :=
  "SHA1 (racoon-20020507a.tar.gz) = 9ecf5fa5660362a967bf6e48499e834eab3a7181\n".toList ++
    "SHA1 (squid-2.4.STABLE6-src.tar.gz) = 0028030b420818922757b10260ae430955c0e617\n".toList

def racoonTarball : Tarball where
  tgz := "racoon-20020507a.tar.gz".toList
  digest := some "9ecf5fa5660362a967bf6e48499e834eab3a7181".toList
  tops := ["racoon-20020507a".toList]
  complete := true
  printed := by decide +kernel

def squidTarball : Tarball where
  tgz := "squid-2.4.STABLE6-src.tar.gz".toList
  digest := some "0028030b420818922757b10260ae430955c0e617".toList
  tops := ["squid-2.4.STABLE6".toList]
  complete := true
  printed := by decide +kernel

theorem racoon_release : Release racoonTarball .racoon ∧ gate shippedDistinfo racoonTarball = true := by
  refine ⟨⟨by decide +kernel, by decide +kernel, rfl, "racoon-20020507a".toList, rfl, ?_, ?_⟩, ?_⟩ <;>
    decide +kernel

theorem squid_release : Release squidTarball .squid ∧ gate shippedDistinfo squidTarball = true := by
  refine ⟨⟨by decide +kernel, by decide +kernel, rfl, "squid-2.4.STABLE6".toList, rfl, ?_, ?_⟩, ?_⟩ <;>
    decide +kernel

/-- The first build of a model with racoon is fine. -/
theorem patched_once_racoon : ∃ s, run (step (fun _ s => s) shippedDistinfo) initial
    [.invoke, .tarball racoonTarball] = some s ∧ PatchedOnce s := by
  refine ⟨_, rfl, (patched_once_iff (fun _ s => s) shippedDistinfo [.invoke, .tarball racoonTarball]
    ?_ rfl).mpr ?_⟩
  · intro e member t same
    subst same
    simp only [List.mem_cons, List.not_mem_nil, or_false, Event.tarball.injEq, reduceCtorEq,
      false_or] at member
    subst member
    exact ⟨.racoon, racoon_release⟩
  · refine ⟨trivial, ?_⟩
    intro s started
    cases started
    refine ⟨?_, fun _ _ => trivial⟩
    intro q _ _ _ _
    cases q <;> simp [Undisturbed, present, initial]

/-- Building a model with squid afterwards patches racoon again. -/
theorem squid_build_patches_racoon : ∃ s, run (step (fun _ s => s) shippedDistinfo) initial
    [.invoke, .tarball racoonTarball, .invoke, .tarball squidTarball] = some s ∧
    (∃ p, Release racoonTarball p ∧ gate shippedDistinfo racoonTarball = true) ∧
    (∃ p, Release squidTarball p ∧ gate shippedDistinfo squidTarball = true) ∧ ¬PatchedOnce s := by
  refine ⟨_, rfl, ⟨.racoon, racoon_release⟩, ⟨.squid, squid_release⟩, ?_⟩
  intro patched
  have foreign := patched.own "squid-2.4.STABLE6-src".toList .racoon "patch-aa".toList (by decide +kernel)
  exact absurd foreign (by decide +kernel)

end Fdgw.Extract
