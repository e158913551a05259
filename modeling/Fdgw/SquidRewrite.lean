import Fdgw.SquidConfig

/-! What the rewrite of the squid configuration does to the directives squid
reads: line by line, access lists and rules are kept, replaced or added to. -/
namespace Fdgw.SquidConfig
open Patterns TextLines

/-! ## Commented defaults -/

/-- The settings replace comments as a whole and are neither comments nor access
control themselves. -/
def Harmless (setting : Text) : Prop :=
  setting.head? ≠ some '#' ∧ readLine setting = none ∧ '\n' ∉ setting ∧
    aclLocalhost.isPrefixOf setting = false ∧ aclLocal.isPrefixOf setting = false ∧
    allowManager.isPrefixOf setting = false

instance (setting : Text) : Decidable (Harmless setting) := by
  unfold Harmless
  infer_instance

theorem settings_harmless : ∀ entry ∈ settings, Harmless entry.2 := by
  decide +kernel

theorem settings_shape : ∀ entry ∈ settings, ∃ pattern,
    entry.1 = .one (.lit '#') :: pattern ++ [.many .dot] := by
  intro entry member
  simp only [settings, List.mem_cons, List.not_mem_nil, or_false] at member
  rcases member with rfl | rfl | rfl | rfl | rfl | rfl | rfl | rfl | rfl | rfl | rfl | rfl | rfl
  all_goals exact ⟨_, rfl⟩

theorem substitute_other (other : line.head? ≠ some '#')
    (shape : ∃ rest, pattern = .one (.lit '#') :: rest) : substitute pattern setting line = line := by
  obtain ⟨rest, rfl⟩ := shape
  cases line with
  | nil => rfl
  | cons c line =>
    have differ : '#' ≠ c := by
      rintro rfl
      exact other rfl
    simp [substitute, matchPrefix, Atom.accepts, differ]

theorem settings_other (other : line.head? ≠ some '#') (list : List (Pattern × Text))
    (within : ∀ entry ∈ list, entry ∈ settings) :
    list.foldl applySetting line = line := by
  induction list with
  | nil => rfl
  | cons entry list ih =>
    obtain ⟨here, others⟩ := List.forall_mem_cons.mp within
    obtain ⟨pattern, shape⟩ := settings_shape entry here
    rw [List.foldl_cons, applySetting, substitute_other other ⟨_, shape⟩, ih others]

/-- A comment stays or becomes one of the settings. -/
theorem settings_comment (free : '\n' ∉ line) (list : List (Pattern × Text))
    (within : ∀ entry ∈ list, entry ∈ settings) :
    list.foldl applySetting line = line ∨
      ∃ entry ∈ settings, list.foldl applySetting line = entry.2 := by
  induction list with
  | nil => exact Or.inl rfl
  | cons entry list ih =>
    obtain ⟨here, others⟩ := List.forall_mem_cons.mp within
    obtain ⟨pattern, shape⟩ := settings_shape entry here
    rw [List.foldl_cons, applySetting]
    cases found : matchPrefix entry.1 line with
    | none =>
      have same : substitute entry.1 entry.2 line = line := by simp [substitute, found]
      rw [same]
      exact ih others
    | some rest =>
      have whole : rest = [] := by
        rw [shape] at found
        exact matchPrefix_toEnd free found
      have replaced : substitute entry.1 entry.2 line = entry.2 := by
        simp [substitute, found, whole]
      rw [replaced, settings_other (settings_harmless entry here).1 list others]
      exact Or.inr ⟨entry, here, rfl⟩

/-! ## One line -/

def localAcl : Acl := ⟨"local".toList, "src".toList,
  ["10.0.0.0/255.0.0.0".toList, "172.16.0.0/255.248.0.0".toList, "192.168.0.0/255.255.0.0".toList]⟩

def managerRule : Rule := ⟨true, [⟨false, "manager".toList⟩, ⟨false, "localhost".toList⟩]⟩
def localRule : Rule := ⟨true, [⟨false, "local".toList⟩]⟩
def localhostRule : Rule := ⟨true, [⟨false, "localhost".toList⟩]⟩

/-- The directives a line of the source stands for afterwards. -/
def rewritten (line : Text) : List Directive :=
  if aclLocalhost.isPrefixOf line then (readLine line).toList ++ [.acl localAcl]
  else if aclLocal.isPrefixOf line then [.acl localAcl]
  else if allowManager.isPrefixOf line then
    [.access managerRule, .access localRule, .access localhostRule] ++
      (readLine (line.drop allowManager.length)).toList
  else (readLine line).toList

theorem directives_line (free : '\n' ∉ line) : directives line = (readLine line).toList := by
  rw [directives, List.splitOn_eq_singleton free]
  cases held : readLine line <;> simp [held]

theorem directives_append (text more : Text) :
    directives (text ++ '\n' :: more) = directives text ++ directives more := by
  simp [directives, List.splitOn_eq_splitOnP, List.splitOnP_append_cons]

theorem directives_localnet : directives localnet = [.acl localAcl] := by
  decide +kernel

theorem directives_allow :
    directives "\nhttp_access allow manager localhost\nhttp_access allow local\nhttp_access allow localhost".toList =
      [.access managerRule, .access localRule, .access localhostRule] := by
  decide +kernel

theorem readLine_comment (hash : line.head? = some '#') : readLine line = none := by
  obtain ⟨rest, rfl⟩ : ∃ rest, line = '#' :: rest := by
    cases line with
    | nil => cases hash
    | cons c rest =>
      cases hash
      exact ⟨rest, rfl⟩
  have none : tokens ('#' :: rest) = [] := by
    unfold tokens fields
    rw [List.splitOnP_cons_eq_if_modifyHead, if_neg (by decide)]
    cases pieces : rest.splitOnP separates with
    | nil => exact absurd pieces (List.splitOnP_ne_nil _ _)
    | cons first others => simp
  unfold readLine
  rw [none]

theorem convertLine_eq (line : Text) : convertLine line =
    substitute (literally allowManager) allow (substitute (literally aclLocal ++ [.many .dot]) localnet
      (insertAfter (literally aclLocalhost ++ [.many .dot]) ('\n' :: localnet)
        (settings.foldl applySetting line))) := rfl

theorem substitute_none (none : matchPrefix pattern line = none) :
    substitute pattern replacement line = line := by
  simp [substitute, none]

/-- The three rules at the end of the loop leave other lines alone. -/
theorem access_untouched (localhost : aclLocalhost.isPrefixOf line = false)
    (local_ : aclLocal.isPrefixOf line = false) (manager : allowManager.isPrefixOf line = false) :
    substitute (literally allowManager) allow (substitute (literally aclLocal ++ [.many .dot]) localnet
      (insertAfter (literally aclLocalhost ++ [.many .dot]) ('\n' :: localnet) line)) = line := by
  have first : insertAfter (literally aclLocalhost ++ [.many .dot]) ('\n' :: localnet) line = line := by
    simp [insertAfter, matchPrefix_literally_none localhost]
  have last : matchPrefix (literally allowManager) line = none := by
    simpa using matchPrefix_literally_none manager []
  rw [first, substitute_none (matchPrefix_literally_none local_ _), substitute_none last]

private theorem whole_match {word more : Text} (free : '\n' ∉ more) :
    matchPrefix (literally word ++ [.many .dot]) (word ++ more) = some [] := by
  rw [matchPrefix_literally, matchPrefix_dots free]

theorem comment_apart (rest : Text) : aclLocalhost.isPrefixOf ('#' :: rest) = false ∧
    aclLocal.isPrefixOf ('#' :: rest) = false ∧ allowManager.isPrefixOf ('#' :: rest) = false := by
  unfold aclLocalhost aclLocal allowManager
  simp [List.isPrefixOf]

theorem localhost_apart (rest : Text) : aclLocal.isPrefixOf (aclLocalhost ++ rest) = false ∧
    allowManager.isPrefixOf (aclLocalhost ++ rest) = false := by
  unfold aclLocalhost aclLocal allowManager
  simp [List.isPrefixOf]

theorem local_apart (rest : Text) : aclLocalhost.isPrefixOf (aclLocal ++ rest) = false ∧
    allowManager.isPrefixOf (aclLocal ++ rest) = false := by
  unfold aclLocalhost aclLocal allowManager
  simp [List.isPrefixOf]

theorem manager_apart (rest : Text) : aclLocalhost.isPrefixOf (allowManager ++ rest) = false ∧
    aclLocal.isPrefixOf (allowManager ++ rest) = false := by
  unfold aclLocalhost aclLocal allowManager
  simp [List.isPrefixOf]

theorem prefix_self (word rest : Text) : word.isPrefixOf (word ++ rest) = true :=
  List.isPrefixOf_iff_prefix.mpr (List.prefix_append word rest)

private theorem localnet_apart : allowManager.isPrefixOf localnet = false := by
  unfold localnet allowManager
  simp [List.isPrefixOf]

theorem allow_split (rest : Text) : allow ++ rest =
    "\nhttp_access allow manager localhost\nhttp_access allow local\nhttp_access allow localhost".toList
      ++ '\n' :: rest := by
  unfold allow
  simp

/-- What the loop makes of a line. -/
inductive Converted : Text → Text → Prop where
  | comment (hash : line.head? = some '#') : Converted line line
  | setting (hash : line.head? = some '#') (member : entry ∈ settings) : Converted line entry.2
  | localhost (more : Text) :
      Converted (aclLocalhost ++ more) (aclLocalhost ++ more ++ '\n' :: localnet)
  | local_ (more : Text) : Converted (aclLocal ++ more) localnet
  | manager (more : Text) : Converted (allowManager ++ more) (allow ++ more)
  | other (plain : line.head? ≠ some '#') (localhost : aclLocalhost.isPrefixOf line = false)
      (local_ : aclLocal.isPrefixOf line = false) (manager : allowManager.isPrefixOf line = false) :
      Converted line line

theorem converted_comment (free : '\n' ∉ line) (hash : line.head? = some '#') :
    Converted line (convertLine line) := by
  rw [convertLine_eq]
  rcases settings_comment free settings (fun _ member => member) with same | ⟨entry, member, replaced⟩
  · obtain ⟨rest, shape⟩ := List.head?_eq_some_iff.mp hash
    obtain ⟨localhost, local_, manager⟩ := comment_apart rest
    rw [← shape] at localhost local_ manager
    rw [same, access_untouched localhost local_ manager]
    exact .comment hash
  · obtain ⟨-, -, -, localhost, local_, manager⟩ := settings_harmless entry member
    rw [replaced, access_untouched localhost local_ manager]
    exact .setting hash member

theorem convertLine_converted (free : '\n' ∉ line) : Converted line (convertLine line) := by
  by_cases hash : line.head? = some '#'
  · exact converted_comment free hash
  rw [convertLine_eq, settings_other hash settings (fun _ member => member)]
  cases localhost : aclLocalhost.isPrefixOf line with
  | true =>
    obtain ⟨more, rfl⟩ := List.isPrefixOf_iff_prefix.mp localhost
    have rest : '\n' ∉ more := fun held => free (List.mem_append_right _ held)
    have inserted : insertAfter (literally aclLocalhost ++ [.many .dot]) ('\n' :: localnet)
        (aclLocalhost ++ more) = aclLocalhost ++ more ++ '\n' :: localnet := by
      simp only [insertAfter, whole_match rest, List.length_nil, Nat.sub_zero, List.take_length,
        List.append_nil]
    obtain ⟨second, third⟩ := localhost_apart (more ++ '\n' :: localnet)
    rw [← List.append_assoc] at second third
    have last : matchPrefix (literally allowManager) (aclLocalhost ++ more ++ '\n' :: localnet) =
        none := by simpa using matchPrefix_literally_none third []
    rw [inserted, substitute_none (matchPrefix_literally_none second _), substitute_none last]
    exact .localhost more
  | false =>
    have kept : insertAfter (literally aclLocalhost ++ [.many .dot]) ('\n' :: localnet) line = line := by
      simp [insertAfter, matchPrefix_literally_none localhost]
    rw [kept]
    cases local_ : aclLocal.isPrefixOf line with
    | true =>
      obtain ⟨more, rfl⟩ := List.isPrefixOf_iff_prefix.mp local_
      have rest : '\n' ∉ more := fun held => free (List.mem_append_right _ held)
      have replaced : substitute (literally aclLocal ++ [.many .dot]) localnet (aclLocal ++ more) =
          localnet := by simp [substitute, whole_match rest]
      have last : matchPrefix (literally allowManager) localnet = none := by
        simpa using matchPrefix_literally_none localnet_apart []
      rw [replaced, substitute_none last]
      exact .local_ more
    | false =>
      rw [substitute_none (matchPrefix_literally_none local_ _)]
      cases manager : allowManager.isPrefixOf line with
      | true =>
        obtain ⟨more, rfl⟩ := List.isPrefixOf_iff_prefix.mp manager
        have found : matchPrefix (literally allowManager) (allowManager ++ more) = some more := by
          simpa [matchPrefix] using matchPrefix_literally allowManager [] more
        have replaced : substitute (literally allowManager) allow (allowManager ++ more) =
            allow ++ more := by simp only [substitute, found]
        rw [replaced]
        exact .manager more
      | false =>
        have last : matchPrefix (literally allowManager) line = none := by
          simpa using matchPrefix_literally_none manager []
        rw [substitute_none last]
        exact .other hash localhost local_ manager

theorem rewritten_comment (hash : line.head? = some '#') : rewritten line = [] := by
  obtain ⟨rest, rfl⟩ := List.head?_eq_some_iff.mp hash
  obtain ⟨localhost, local_, manager⟩ := comment_apart rest
  simp [rewritten, readLine_comment hash, localhost, local_, manager]

/-- Reading the converted line gives the rewritten directives. -/
theorem directives_convertLine (free : '\n' ∉ line) :
    directives (convertLine line) = rewritten line := by
  have converted := convertLine_converted free
  generalize convertLine line = result at converted
  cases converted with
  | comment hash =>
    rw [rewritten_comment hash, directives_line free, readLine_comment hash]
    rfl
  | setting hash member =>
    obtain ⟨-, none, single, -⟩ := settings_harmless _ member
    rw [rewritten_comment hash, directives_line single, none]
    rfl
  | localhost more =>
    rw [directives_append, directives_line free, directives_localnet, rewritten,
      if_pos (prefix_self aclLocalhost more)]
  | local_ more =>
    rw [directives_localnet, rewritten, if_neg (by simp [(local_apart more).1]),
      if_pos (prefix_self aclLocal more)]
  | manager more =>
    have rest : '\n' ∉ more := fun held => free (List.mem_append_right _ held)
    obtain ⟨localhost, local_⟩ := manager_apart more
    rw [allow_split, directives_append, directives_allow, directives_line rest, rewritten,
      if_neg (by simp [localhost]), if_neg (by simp [local_]), if_pos (prefix_self allowManager more),
      List.drop_left]
  | other plain localhost local_ manager =>
    rw [directives_line free, rewritten]
    simp [localhost, local_, manager]

/-! ## The whole file -/

theorem settings_onLine : ∀ entry ∈ settings, OnLine entry.1 := by
  have checked : ∀ entry ∈ settings, entry.1.all (fun item => !item.atom.accepts '\n') = true := by
    decide +kernel
  intro entry member item held
  simpa using List.all_eq_true.mp (checked entry member) item held

theorem insertAfter_line (bound : OnLine pattern) (text front more : Text) :
    insertAfter pattern text (front ++ '\n' :: more) =
      insertAfter pattern text front ++ '\n' :: more := by
  unfold insertAfter
  rw [matchPrefix_line bound]
  cases found : matchPrefix pattern front with
  | none => rfl
  | some rest =>
    obtain ⟨matched, rfl, -⟩ := matchPrefix_sound found
    have left : (matched ++ rest ++ '\n' :: more).length - (rest ++ '\n' :: more).length =
        matched.length := by
      simp only [List.length_append]
      omega
    have right : (matched ++ rest).length - rest.length = matched.length := by
      simp only [List.length_append]
      omega
    simp only [Option.map_some, left, right]
    simp

theorem settings_line (list : List (Pattern × Text)) (within : ∀ entry ∈ list, entry ∈ settings)
    (front more : Text) : list.foldl applySetting (front ++ '\n' :: more) =
      list.foldl applySetting front ++ '\n' :: more := by
  induction list generalizing front with
  | nil => rfl
  | cons entry list ih =>
    obtain ⟨here, others⟩ := List.forall_mem_cons.mp within
    rw [List.foldl_cons, applySetting, substitute_line (settings_onLine entry here)]
    exact ih others _

theorem convertLine_line (front more : Text) :
    convertLine (front ++ '\n' :: more) = convertLine front ++ '\n' :: more := by
  have dots : OnLine [.many .dot] := by
    intro item member
    cases List.mem_singleton.mp member
    rfl
  have localhost : OnLine (literally aclLocalhost ++ [.many .dot]) :=
    onLine_append (onLine_literally (by decide +kernel)) dots
  have local_ : OnLine (literally aclLocal ++ [.many .dot]) :=
    onLine_append (onLine_literally (by decide +kernel)) dots
  have manager : OnLine (literally allowManager) := onLine_literally (by decide +kernel)
  rw [convertLine_eq, convertLine_eq, settings_line settings (fun _ member => member),
    insertAfter_line localhost, substitute_line local_, substitute_line manager]

theorem convert_lines (source : Text) :
    convert source = ['\n'].intercalate ((source.splitOn '\n').map convertLine) := by
  apply flatten_map_readLines
  · decide +kernel
  · rintro line - ending (rfl | rfl)
    · simp
    · exact convertLine_line line []

/-- Squid reads in the printed file what the lines of the source were rewritten to. -/
theorem directives_convert (source : Text) :
    directives (convert source) = (source.splitOn '\n').flatMap rewritten := by
  induction source using lines_induction with
  | last rest free =>
    rw [List.splitOn_eq_singleton free, List.flatMap_singleton, ← directives_convertLine free, convert]
    by_cases empty : rest = []
    · subst empty
      decide +kernel
    · rw [readLines_last free empty]
      simp
  | line front more free ih =>
    have here := directives_convertLine free
    have next : convert (front ++ '\n' :: more) = convertLine front ++ '\n' :: convert more := by
      have line : convertLine (front ++ ['\n']) = convertLine front ++ ['\n'] :=
        convertLine_line front []
      simp [convert, readLines_line free, line]
    rw [next, directives_append, ih, here, List.splitOn_append_cons_self_of_not_mem free, List.flatMap_cons]

end Fdgw.SquidConfig
