import Fdgw.SquidRewrite

/-! Which commented defaults the rewrite of the squid configuration replaces.
The patterns end where the name they look for ends, so they take longer names
for it, and the one that looks for an example of `httpd_accel_host` takes any
comment that mentions it. -/
namespace Fdgw.SquidConfig
open Patterns TextLines

variable {line name rest text : Text}

/-! ## The substitutions in turn -/

/-- The sixteen substitutions of the loop: what each looks for at the start of
the line, and what it does. -/
def substitutions : List (Pattern × (Text → Text)) :=
  settings.map (fun entry => (entry.1, fun line => applySetting line entry)) ++
    [(literally aclLocalhost ++ [.many .dot],
      insertAfter (literally aclLocalhost ++ [.many .dot]) ('\n' :: localnet)),
     (literally aclLocal ++ [.many .dot], substitute (literally aclLocal ++ [.many .dot]) localnet),
     (literally allowManager, substitute (literally allowManager) allow)]

def runAll (list : List (Pattern × (Text → Text))) (line : Text) : Text :=
  list.foldl (fun text s => s.2 text) line

theorem convertLine_runAll (line : Text) : convertLine line = runAll substitutions line := by
  unfold runAll substitutions
  rw [List.foldl_append, List.foldl_map, convertLine_eq]
  simp only [List.foldl_cons, List.foldl_nil]

/-- What a substitution produces matches none of the later ones. -/
def NeverRewritten (line : Text) : Prop :=
  ∀ earlier s later, substitutions = earlier ++ s :: later →
    matchesAtStart s.1 (runAll earlier line) = true →
    ∀ next ∈ later, matchesAtStart next.1 (s.2 (runAll earlier line)) = false

/-! ## Names -/

/-- The defaults replaced above the substitution for `httpd_accel_host`. -/
def upper : List (Text × Text) :=
  [("mime_table".toList, "mime_table /usr/pkg/etc/squid/mime.conf".toList),
   ("cache_dir".toList, "cache_dir ufs /var/squid/cache 1 2 2".toList),
   ("cache_mem".toList, "cache_mem 1 MB".toList),
   ("cache_swap_high".toList, "cache_swap_high 50".toList),
   ("cache_swap_low".toList, "cache_swap_low  30".toList),
   ("http_port".toList, "http_port 127.0.0.1:3128".toList)]

/-- The defaults replaced below it. -/
def lower : List (Text × Text) :=
  [("httpd_accel_port".toList, "httpd_accel_port 80".toList),
   ("httpd_accel_uses_host_header".toList, "httpd_accel_uses_host_header on".toList),
   ("httpd_accel_with_proxy".toList, "httpd_accel_with_proxy on".toList),
   ("maximum_object_size".toList, "maximum_object_size 1 KB".toList),
   ("icon_directory".toList, "icon_directory /usr/pkg/share/squid/icons".toList),
   ("error_directory".toList, "error_directory /usr/pkg/share/squid/errors".toList)]

/-- The directives the script manages as commented defaults, with their fixed settings. -/
def managed : List (Text × Text) := upper ++ lower

def accelHost : Text := ": httpd_accel_host".toList

def accelSetting : Text := "httpd_accel_host virtual".toList

/-- The comment mentions `: httpd_accel_host` behind its `#`. -/
def MentionsAccel (line : Text) : Prop := ∃ before after, line = '#' :: (before ++ accelHost ++ after)

/-- A commented default: `# name`, then the end of the line or white space. -/
structure Default (line name rest : Text) : Prop where
  shape : line = "# ".toList ++ name ++ rest
  single : '\n' ∉ rest
  name : name ≠ [] ∧ name.any isSpace = false
  ends : rest = [] ∨ rest.head?.any isSpace = true

/-- What the script means to print for a commented default. -/
def intended (name line : Text) : Text := ((managed.find? fun entry => entry.1 = name).map Prod.snd).getD line

def entryOf (default : Text × Text) : Pattern × Text := (commented default.1, default.2)

theorem settings_split : settings = upper.map entryOf ++
    ([.one (.lit '#'), .many .dot] ++ literally accelHost ++ [.many .dot], accelSetting) ::
      lower.map entryOf := rfl

/-! ## Nothing is rewritten twice -/

theorem substitutions_cases (member : s ∈ substitutions) :
    (∃ entry ∈ settings, s = (entry.1, fun line => applySetting line entry)) ∨
      s = (literally aclLocalhost ++ [.many .dot],
        insertAfter (literally aclLocalhost ++ [.many .dot]) ('\n' :: localnet)) ∨
      s = (literally aclLocal ++ [.many .dot],
        substitute (literally aclLocal ++ [.many .dot]) localnet) ∨
      s = (literally allowManager, substitute (literally allowManager) allow) := by
  unfold substitutions at member
  rcases List.mem_append.mp member with held | held
  · obtain ⟨entry, inside, rfl⟩ := List.mem_map.mp held
    exact Or.inl ⟨entry, inside, rfl⟩
  · simp only [List.mem_cons, List.not_mem_nil, or_false] at held
    exact Or.inr held

theorem settings_unmatched (other : text.head? ≠ some '#') (member : entry ∈ settings) :
    matchesAtStart entry.1 text = false := by
  obtain ⟨pattern, shape⟩ := settings_shape entry member
  rw [shape]
  cases text with
  | nil => rfl
  | cons c text =>
    have differ : '#' ≠ c := by
      rintro rfl
      exact other rfl
    simp [matchesAtStart, matchPrefix, Atom.accepts, differ]

/-- A text that starts differently from everything the substitutions look for. -/
theorem substitutions_unmatched (other : text.head? ≠ some '#')
    (localhost : next.1 = literally aclLocalhost ++ [.many .dot] → aclLocalhost.isPrefixOf text = false)
    (local_ : aclLocal.isPrefixOf text = false) (manager : allowManager.isPrefixOf text = false)
    (member : next ∈ substitutions) : matchesAtStart next.1 text = false := by
  rcases substitutions_cases member with ⟨entry, inside, rfl⟩ | rfl | rfl | rfl
  · exact settings_unmatched other inside
  · rw [matchesAtStart_dots, matchesAtStart_literally]
    exact localhost rfl
  · rw [matchesAtStart_dots, matchesAtStart_literally]
    exact local_
  · rw [matchesAtStart_literally]
    exact manager

theorem newline_apart (rest : Text) : aclLocalhost.isPrefixOf ('\n' :: rest) = false ∧
    aclLocal.isPrefixOf ('\n' :: rest) = false ∧ allowManager.isPrefixOf ('\n' :: rest) = false := by
  unfold aclLocalhost aclLocal allowManager
  simp [List.isPrefixOf]

theorem newline_unmatched (member : next ∈ substitutions) (rest : Text) :
    matchesAtStart next.1 ('\n' :: rest) = false := by
  obtain ⟨localhost, local_, manager⟩ := newline_apart rest
  exact substitutions_unmatched (by simp) (fun _ => localhost) local_ manager member

theorem setting_unmatched (held : entry ∈ settings) (ends : rest = [] ∨ ∃ more, rest = '\n' :: more)
    (member : next ∈ substitutions) : matchesAtStart next.1 (entry.2 ++ rest) = false := by
  obtain ⟨hash, -, -, localhost, local_, manager⟩ := settings_harmless entry held
  have front : (entry.2 ++ rest).head? ≠ some '#' := by
    rw [List.head?_append]
    cases first : entry.2.head? with
    | some c => simpa [first] using hash
    | none => rcases ends with rfl | ⟨more, rfl⟩ <;> simp
  have stops : ∀ word : Text, '\n' ∉ word → ∀ c, rest.head? = some c → c ∉ word := by
    rcases ends with rfl | ⟨more, rfl⟩
    · simp
    · rintro word free c first
      cases first
      exact free
  apply substitutions_unmatched front _ _ _ member
  · intro _
    rw [isPrefixOf_append (stops _ (by decide +kernel))]
    exact localhost
  · rw [isPrefixOf_append (stops _ (by decide +kernel))]
    exact local_
  · rw [isPrefixOf_append (stops _ (by decide +kernel))]
    exact manager

theorem localhost_inserted (found : matchPrefix (literally aclLocalhost ++ [.many .dot]) text = some rest) :
    ∃ more, insertAfter (literally aclLocalhost ++ [.many .dot]) ('\n' :: localnet) text =
      aclLocalhost ++ more := by
  obtain ⟨front, rfl, member⟩ := matchPrefix_sound found
  obtain ⟨tail, rfl, -⟩ := matches_literally_append.mp member
  have kept : (aclLocalhost ++ tail ++ rest).length - rest.length = (aclLocalhost ++ tail).length := by
    simp only [List.length_append]
    omega
  refine ⟨tail ++ ('\n' :: localnet) ++ rest, ?_⟩
  rw [insertAfter, found]
  simp only [kept, List.take_left]
  simp only [List.append_assoc]

/-- Text that one substitution produces is left alone by all later ones. -/
theorem never_rewritten (line : Text) : NeverRewritten line := by
  intro earlier s later split found next among
  have distinct : (substitutions.map Prod.fst).Nodup := by decide +kernel
  have differ : next.1 ≠ s.1 := by
    rw [split, List.map_append, List.map_cons] at distinct
    have apart := (List.nodup_cons.mp (List.nodup_append.mp distinct).2.1).1
    intro same
    exact apart (same ▸ List.mem_map_of_mem among)
  have held : s ∈ substitutions := by simp [split]
  have member : next ∈ substitutions := by simp [split, among]
  generalize runAll earlier line = text at found ⊢
  obtain ⟨rest, matched⟩ := Option.isSome_iff_exists.mp found
  rcases substitutions_cases held with ⟨entry, inside, rfl⟩ | rfl | rfl | rfl
  · have produced : applySetting text entry = entry.2 ++ rest := by
      simp only [applySetting, substitute, matched]
    obtain ⟨pattern, shape⟩ := settings_shape entry inside
    simp only [shape] at matched
    simp only [produced]
    exact setting_unmatched inside (matchPrefix_dotEnd matched) member
  · obtain ⟨more, produced⟩ := localhost_inserted matched
    obtain ⟨local_, manager⟩ := localhost_apart more
    simp only [produced]
    refine substitutions_unmatched ?_ (fun same => absurd same differ) local_ manager member
    unfold aclLocalhost
    simp
  · have produced : substitute (literally aclLocal ++ [.many .dot]) localnet text =
        localnet ++ rest := by simp only [substitute, matched]
    simp only [produced]
    unfold localnet
    exact newline_unmatched member _
  · have produced : substitute (literally allowManager) allow text = allow ++ rest := by
      simp only [substitute, matched]
    simp only [produced]
    unfold allow
    exact newline_unmatched member _

/-! ## The first match decides -/

/-- A line becomes the first setting whose pattern it matches. -/
theorem settings_first (free : '\n' ∉ line) (list : List (Pattern × Text))
    (within : ∀ entry ∈ list, entry ∈ settings) : list.foldl applySetting line =
      ((list.find? fun entry => matchesAtStart entry.1 line).map Prod.snd).getD line := by
  induction list with
  | nil => rfl
  | cons entry list ih =>
    obtain ⟨here, others⟩ := List.forall_mem_cons.mp within
    obtain ⟨pattern, shape⟩ := settings_shape entry here
    rw [List.foldl_cons, applySetting]
    cases found : matchPrefix entry.1 line with
    | none =>
      have refused : matchesAtStart entry.1 line = false := by simp [matchesAtStart, found]
      rw [substitute_none found, ih others, List.find?_cons_of_neg (by simp [refused])]
    | some rest =>
      have accepted : matchesAtStart entry.1 line = true := by simp [matchesAtStart, found]
      have whole : rest = [] := by
        rw [shape] at found
        exact matchPrefix_toEnd free found
      have replaced : substitute entry.1 entry.2 line = entry.2 := by
        simp [substitute, found, whole]
      rw [replaced, settings_other (settings_harmless entry here).1 list others,
        List.find?_cons_of_pos (by simp [accepted])]
      rfl

theorem convertLine_comment (free : '\n' ∉ line) (hash : line.head? = some '#') : convertLine line =
    ((settings.find? fun entry => matchesAtStart entry.1 line).map Prod.snd).getD line := by
  rw [convertLine_eq, ← settings_first free settings (fun _ member => member)]
  rcases settings_comment free settings (fun _ member => member) with same | ⟨entry, member, replaced⟩
  · obtain ⟨rest, rfl⟩ := List.head?_eq_some_iff.mp hash
    obtain ⟨localhost, local_, manager⟩ := comment_apart rest
    rw [same, access_untouched localhost local_ manager]
  · obtain ⟨-, -, -, localhost, local_, manager⟩ := settings_harmless entry member
    rw [replaced, access_untouched localhost local_ manager]

/-! ## Matching a commented default -/

theorem managed_names : ∀ entry ∈ managed, entry.1.any isSpace = false := by
  decide +kernel

theorem commented_matches (default : Default line name rest) (member : entry ∈ managed) :
    matchesAtStart (entryOf entry).1 line = entry.1.isPrefixOf name := by
  have stops : ∀ c, rest.head? = some c → c ∉ entry.1 := by
    intro c first held
    have space : isSpace c = true := by
      rcases default.ends with rfl | space
      · cases first
      · simpa [first] using space
    have visible := List.any_eq_false.mp (managed_names entry member) c held
    exact visible space
  have front : ("# ".toList ++ entry.1).isPrefixOf ("# ".toList ++ (name ++ rest)) =
      entry.1.isPrefixOf (name ++ rest) := by
    simp [List.isPrefixOf]
  rw [entryOf, commented, matchesAtStart_dots, matchesAtStart_literally, default.shape,
    List.append_assoc, front, isPrefixOf_append stops]

theorem accel_matches (free : '\n' ∉ line) :
    matchesAtStart ([.one (.lit '#'), .many .dot] ++ literally accelHost ++ [.many .dot]) line = true ↔
      MentionsAccel line := by
  rw [matchesAtStart_dots]
  cases line with
  | nil => simp [matchesAtStart, matchPrefix, MentionsAccel]
  | cons c rest =>
    have after : '\n' ∉ rest := fun held => free (List.mem_cons_of_mem c held)
    by_cases hash : c = '#'
    · subst hash
      have behind : matchesAtStart ([.one (.lit '#'), .many .dot] ++ literally accelHost) ('#' :: rest) =
          matchesAtStart (inOrder [accelHost]) rest := by
        simp [matchesAtStart, matchPrefix, Atom.accepts, inOrder]
      rw [behind, matchesAtStart_inOrder after]
      constructor
      · rintro ⟨before, more, rfl, -⟩
        exact ⟨before, more, rfl⟩
      · rintro ⟨before, more, shape⟩
        exact ⟨before, more, (List.cons.inj shape).2, trivial⟩
    · have differ : '#' ≠ c := fun same => hash same.symm
      constructor
      · intro found
        simp [matchesAtStart, matchPrefix, Atom.accepts, differ] at found
      · rintro ⟨before, more, shape⟩
        exact absurd (List.cons.inj shape).1 hash

theorem default_free (default : Default line name rest) : '\n' ∉ line := by
  have visible : '\n' ∉ name := by
    intro held
    exact List.any_eq_false.mp default.name.2 '\n' held rfl
  have single := default.single
  rw [default.shape]
  simp [visible, single]

theorem default_hash (default : Default line name rest) : line.head? = some '#' := by
  rw [default.shape]
  rfl

/-- A list of defaults is tried in turn by the names' beginnings. -/
theorem find_entries (default : Default line name rest) (list : List (Text × Text))
    (within : ∀ entry ∈ list, entry ∈ managed) :
    (list.map entryOf).find? (fun entry => matchesAtStart entry.1 line) =
      (list.find? fun entry => entry.1.isPrefixOf name).map entryOf := by
  induction list with
  | nil => rfl
  | cons entry list ih =>
    obtain ⟨here, others⟩ := List.forall_mem_cons.mp within
    have decided := commented_matches default here
    rw [List.map_cons]
    cases starts : entry.1.isPrefixOf name with
    | true =>
      rw [List.find?_cons_of_pos (by rw [decided, starts]), List.find?_cons_of_pos (by exact starts)]
      rfl
    | false =>
      rw [List.find?_cons_of_neg (by simp [decided, starts]),
        List.find?_cons_of_neg (by simp [starts]), ih others]

/-- What becomes of a commented default: the first name it begins with decides,
and the search for `httpd_accel_host` stands between the two groups. -/
theorem default_cases (default : Default line name rest) :
    (∃ entry ∈ upper, entry.1 <+: name ∧ convertLine line = entry.2) ∨
    (MentionsAccel line ∧ (∀ entry ∈ upper, ¬ entry.1 <+: name) ∧ convertLine line = accelSetting) ∨
    (¬ MentionsAccel line ∧ (∀ entry ∈ upper, ¬ entry.1 <+: name) ∧
      ∃ entry ∈ lower, entry.1 <+: name ∧ convertLine line = entry.2) ∨
    (¬ MentionsAccel line ∧ (∀ entry ∈ managed, ¬ entry.1 <+: name) ∧ convertLine line = line) := by
  have free := default_free default
  have outcome := convertLine_comment free (default_hash default)
  have above := find_entries default upper fun _ member => List.mem_append_left lower member
  have below := find_entries default lower fun _ member => List.mem_append_right upper member
  rw [settings_split, List.find?_append, above] at outcome
  cases first : upper.find? (fun entry => entry.1.isPrefixOf name) with
  | some entry =>
    rw [first] at outcome
    have starts := List.find?_some first
    exact Or.inl ⟨entry, List.mem_of_find?_eq_some first, List.isPrefixOf_iff_prefix.mp starts, outcome⟩
  | none =>
    have unlike : ∀ entry ∈ upper, ¬ entry.1 <+: name := by
      intro entry member starts
      exact List.find?_eq_none.mp first entry member (List.isPrefixOf_iff_prefix.mpr starts)
    rw [first, Option.map_none, Option.none_or] at outcome
    by_cases mentioned : MentionsAccel line
    · rw [List.find?_cons_of_pos (by exact (accel_matches free).mpr mentioned)] at outcome
      exact Or.inr (Or.inl ⟨mentioned, unlike, outcome⟩)
    · rw [List.find?_cons_of_neg (by exact fun found => mentioned ((accel_matches free).mp found)), below] at outcome
      cases second : lower.find? (fun entry => entry.1.isPrefixOf name) with
      | some entry =>
        rw [second] at outcome
        have starts := List.find?_some second
        exact Or.inr (Or.inr (Or.inl ⟨mentioned, unlike, entry, List.mem_of_find?_eq_some second,
          List.isPrefixOf_iff_prefix.mp starts, outcome⟩))
      | none =>
        rw [second] at outcome
        refine Or.inr (Or.inr (Or.inr ⟨mentioned, ?_, outcome⟩))
        intro entry member starts
        rcases List.mem_append.mp member with member | member
        · exact unlike entry member starts
        · exact List.find?_eq_none.mp second entry member (List.isPrefixOf_iff_prefix.mpr starts)

/-! ## When the intended setting is printed -/

theorem managed_apart : ∀ entry ∈ managed, ∀ other ∈ managed,
    entry.1.isPrefixOf other.1 = true → entry = other := by
  decide +kernel

theorem managed_settings : ∀ entry ∈ managed, entry.2.head? ≠ some '#' ∧ entry.2 ≠ accelSetting := by
  decide +kernel

theorem intended_managed (member : entry ∈ managed) (line : Text) : intended entry.1 line = entry.2 := by
  unfold intended
  cases found : managed.find? (fun other => other.1 = entry.1) with
  | none => exact absurd (List.find?_eq_none.mp found entry member) (by simp)
  | some other =>
    have same : other.1 = entry.1 := by simpa using List.find?_some found
    have starts : other.1.isPrefixOf entry.1 = true := by
      rw [same]
      exact List.isPrefixOf_iff_prefix.mpr (List.prefix_refl entry.1)
    rw [managed_apart other (List.mem_of_find?_eq_some found) entry member starts]
    rfl

theorem intended_other (unknown : ∀ entry ∈ managed, entry.1 ≠ name) (line : Text) :
    intended name line = line := by
  have missing : (managed.find? fun entry => entry.1 = name) = none := by
    apply List.find?_eq_none.mpr
    intro entry member
    simpa using unknown entry member
  rw [intended, missing]
  rfl

/-- The intended setting is that of the name, or the line itself. -/
theorem intended_cases (name line : Text) :
    (∃ entry ∈ managed, entry.1 = name ∧ intended name line = entry.2) ∨ intended name line = line := by
  by_cases known : ∃ entry ∈ managed, entry.1 = name
  · obtain ⟨entry, member, rfl⟩ := known
    exact Or.inl ⟨entry, member, rfl, intended_managed member line⟩
  · apply Or.inr
    apply intended_other
    intro entry member named
    exact known ⟨entry, member, named⟩

/-- A name the substitutions tell from the names they look for. -/
def ToldApart (name line : Text) : Prop :=
  (∃ entry ∈ upper, entry.1 = name) ∨
    (¬ MentionsAccel line ∧ ∀ entry ∈ managed, entry.1 <+: name → entry.1 = name)

/-- A default that got one of the settings got the intended one only if the
setting is that of its name. -/
theorem setting_intended (default : Default line name rest) (member : entry ∈ managed)
    (starts : entry.1 <+: name) : entry.2 = intended name line ↔ entry.1 = name := by
  constructor
  · intro same
    rcases intended_cases name line with ⟨other, held, rfl, -⟩ | untouched
    · rw [managed_apart entry member other held (List.isPrefixOf_iff_prefix.mpr starts)]
    · have hash := default_hash default
      rw [← untouched, ← same] at hash
      exact absurd hash (managed_settings entry member).1
  · rintro rfl
    exact (intended_managed member line).symm

theorem accel_unintended (default : Default line name rest) : accelSetting ≠ intended name line := by
  intro same
  rcases intended_cases name line with ⟨entry, member, -, meant⟩ | untouched
  · rw [meant] at same
    exact (managed_settings entry member).2 same.symm
  · have hash := default_hash default
    rw [← untouched, ← same] at hash
    exact absurd hash (by decide +kernel)

theorem default_intended_iff (default : Default line name rest) :
    convertLine line = intended name line ↔ ToldApart name line := by
  have named : ∀ entry ∈ managed, entry.1 = name →
      ∀ other ∈ managed, other.1 <+: name → other.1 = name := by
    rintro entry member rfl other held starts
    rw [managed_apart other held entry member (List.isPrefixOf_iff_prefix.mpr starts)]
  rcases default_cases default with ⟨entry, member, starts, outcome⟩ | ⟨mentioned, unlike, outcome⟩ |
    ⟨plain, unlike, entry, member, starts, outcome⟩ | ⟨plain, unlike, outcome⟩
  · have held : entry ∈ managed := List.mem_append_left lower member
    rw [outcome, setting_intended default held starts]
    constructor
    · intro same
      exact Or.inl ⟨entry, member, same⟩
    · rintro (⟨other, above, rfl⟩ | ⟨-, only⟩)
      · exact named other (List.mem_append_left lower above) rfl entry held starts
      · exact only entry held starts
  · rw [outcome]
    constructor
    · intro same
      exact absurd same (accel_unintended default)
    · rintro (⟨entry, member, rfl⟩ | ⟨plain, -⟩)
      · exact absurd (List.prefix_refl entry.1) (unlike entry member)
      · exact absurd mentioned plain
  · have held : entry ∈ managed := List.mem_append_right upper member
    rw [outcome, setting_intended default held starts]
    constructor
    · intro same
      exact Or.inr ⟨plain, named entry held same⟩
    · rintro (⟨other, above, rfl⟩ | ⟨-, only⟩)
      · exact absurd (List.prefix_refl other.1) (unlike other above)
      · exact only entry held starts
  · have unknown : ∀ entry ∈ managed, entry.1 ≠ name := by
      rintro entry member rfl
      exact unlike entry member (List.prefix_refl entry.1)
    rw [outcome, intended_other unknown]
    constructor
    · intro _
      refine Or.inr ⟨plain, ?_⟩
      intro entry member starts
      exact absurd starts (unlike entry member)
    · intro _
      rfl

/-! ## The whole file -/

/-- The rewrite prints the file line by line, gives every commented default its
intended setting or leaves it as it is, and rewrites nothing twice. -/
structure TouchesManaged (source : Text) : Prop where
  printed : convert source = ['\n'].intercalate ((source.splitOn '\n').map convertLine)
  defaults : ∀ line ∈ source.splitOn '\n', ∀ name rest, Default line name rest →
    convertLine line = intended name line
  settled : ∀ line ∈ readLines source, convertLine line = runAll substitutions line ∧ NeverRewritten line

/-- The rewrite keeps to the directives it manages exactly in the files whose
commented defaults are told apart: no name goes on where a managed name ends, and
none but those looked for first mention `: httpd_accel_host`. -/
theorem touches_managed_iff (source : Text) : TouchesManaged source ↔
    ∀ line ∈ source.splitOn '\n', ∀ name rest, Default line name rest → ToldApart name line := by
  constructor
  · intro touches line member name rest default
    exact (default_intended_iff default).mp (touches.defaults line member name rest default)
  · intro apart
    refine ⟨convert_lines source, ?_, fun line _ => ⟨convertLine_runAll line, never_rewritten line⟩⟩
    intro line member name rest default
    exact (default_intended_iff default).mpr (apart line member name rest default)

/-- The commented default that squid ships for the size of objects kept in memory. -/
def inMemory : Text := "# maximum_object_size_in_memory 8 KB".toList

theorem inMemory_default :
    Default inMemory "maximum_object_size_in_memory".toList " 8 KB".toList where
  shape := by decide +kernel
  single := by decide +kernel
  name := by decide +kernel
  ends := by decide +kernel

theorem inMemory_replaced : convertLine inMemory = "maximum_object_size 1 KB".toList ∧
    intended "maximum_object_size_in_memory".toList inMemory = inMemory ∧
    ¬ TouchesManaged (inMemory ++ ['\n']) := by
  have converted : convertLine inMemory = "maximum_object_size 1 KB".toList := by decide +kernel
  have meant : intended "maximum_object_size_in_memory".toList inMemory = inMemory := by decide +kernel
  refine ⟨converted, meant, ?_⟩
  intro touches
  have here := touches.defaults inMemory (by decide +kernel) _ _ inMemory_default
  rw [converted, meant] at here
  revert here
  decide +kernel

end Fdgw.SquidConfig
