import Fdgw.SquidRewrite

/-! What the rewrite does to the verdicts. The inserted rules concern clients in
`localhost` and in the private networks only, so nobody else notices; but they
stand in the middle of the list and let those clients past every denial below
them. -/
namespace Fdgw.SquidConfig
open Patterns TextLines FirstMatch

variable {outside : Text → Text → Request → Bool} {source line : Text} {r : Request}

/-! ## Reading the lines the rewrite looks for -/

theorem readLine_aclLocal (more : Text) : ∃ kind values,
    readLine (aclLocal ++ more) = some (.acl ⟨"local".toList, kind, values⟩) := by
  obtain ⟨extra, others, third⟩ : ∃ extra others,
      fields separates ("src".toList ++ more) = ("src".toList ++ extra) :: others :=
    fields_first (by decide) (by decide) more
  have shape : aclLocal ++ more = "acl".toList ++ ' ' :: ("local".toList ++ ' ' :: ("src".toList ++ more)) := by
    unfold aclLocal
    simp
  have split : fields separates (aclLocal ++ more) =
      "acl".toList :: "local".toList :: ("src".toList ++ extra) :: others := by
    rw [shape, fields_word (by decide) (by decide) (by decide), fields_word (by decide) (by decide) (by decide),
      third]
  refine ⟨"src".toList ++ extra, others.takeWhile fun word => word.head? ≠ some '#', ?_⟩
  unfold readLine tokens
  rw [split]
  simp

theorem readLine_allowManager (more : Text) : ∃ terms,
    readLine (allowManager ++ more) = some (.access ⟨true, terms⟩) := by
  obtain ⟨extra, others, fourth⟩ : ∃ extra others,
      fields separates ("localhost".toList ++ more) = ("localhost".toList ++ extra) :: others :=
    fields_first (by decide) (by decide) more
  have shape : allowManager ++ more = "http_access".toList ++ ' ' :: ("allow".toList ++ ' ' ::
      ("manager".toList ++ ' ' :: ("localhost".toList ++ more))) := by
    unfold allowManager
    simp
  have split : fields separates (allowManager ++ more) = "http_access".toList :: "allow".toList ::
      "manager".toList :: ("localhost".toList ++ extra) :: others := by
    rw [shape, fields_word (by decide) (by decide) (by decide),
      fields_word (by decide) (by decide) (by decide), fields_word (by decide) (by decide) (by decide),
      fourth]
  unfold readLine tokens
  rw [split]
  simp

/-! ## Rules and access lists, line by line -/

/-- The access rule of a line of the source. -/
def lineRules (line : Text) : List Rule := (readLine line).toList.filterMap Directive.asRule

/-- The rule a line contributes besides the inserted ones: behind the words that
are replaced only what follows them is left. -/
def ownRules (line : Text) : List Rule :=
  lineRules (if allowManager.isPrefixOf line then line.drop allowManager.length else line)

def insertedRules (line : Text) : List Rule :=
  if allowManager.isPrefixOf line then [managerRule, localRule, localhostRule] else []

def newRules (line : Text) : List Rule := (rewritten line).filterMap Directive.asRule

def lineAcls (line : Text) : List Acl := (readLine line).toList.filterMap Directive.asAcl

def newAcls (line : Text) : List Acl := (rewritten line).filterMap Directive.asAcl

theorem directives_lines (source : Text) :
    directives source = (source.splitOn '\n').flatMap fun line => (readLine line).toList :=
  List.filterMap_eq_flatMap_toList ..

theorem rules_lines (source : Text) : rules source = (source.splitOn '\n').flatMap lineRules := by
  rw [rules, directives_lines, List.filterMap_flatMap]
  rfl

theorem acls_lines (source : Text) : acls source = (source.splitOn '\n').flatMap lineAcls := by
  rw [acls, directives_lines, List.filterMap_flatMap]
  rfl

theorem rules_convert (source : Text) :
    rules (convert source) = (source.splitOn '\n').flatMap newRules := by
  rw [rules, directives_convert, List.filterMap_flatMap]
  rfl

theorem acls_convert (source : Text) :
    acls (convert source) = (source.splitOn '\n').flatMap newAcls := by
  rw [acls, directives_convert, List.filterMap_flatMap]
  rfl

theorem newRules_eq (line : Text) : newRules line = insertedRules line ++ ownRules line := by
  unfold newRules rewritten insertedRules ownRules
  cases localhost : aclLocalhost.isPrefixOf line with
  | true =>
    obtain ⟨more, rfl⟩ := List.isPrefixOf_iff_prefix.mp localhost
    have apart := (localhost_apart more).2
    simp [apart, lineRules, Directive.asRule]
  | false =>
    cases local_ : aclLocal.isPrefixOf line with
    | true =>
      obtain ⟨more, rfl⟩ := List.isPrefixOf_iff_prefix.mp local_
      obtain ⟨kind, values, read⟩ := readLine_aclLocal more
      have apart := (local_apart more).2
      simp [apart, lineRules, read]
      rfl
    | false =>
      cases manager : allowManager.isPrefixOf line with
      | true => simp [lineRules, Directive.asRule]
      | false => simp [lineRules]

theorem decision_newRules (lists : List Acl) (line : Text) :
    decision Rule.allow (Rule.applies outside lists r) (newRules line) =
      if allowManager.isPrefixOf line && (aclMatches outside lists r "local".toList ||
        aclMatches outside lists r "localhost".toList) then some true
      else decision Rule.allow (Rule.applies outside lists r) (ownRules line) := by
  rw [newRules_eq, decision_append]
  unfold insertedRules
  cases allowManager.isPrefixOf line with
  | false => rfl
  | true =>
    simp only [if_true, decision_cons, decision_nil, Rule.applies, managerRule, localRule, localhostRule,
      List.all_cons, List.all_nil, Bool.and_true, Bool.true_and]
    cases aclMatches outside lists r "manager".toList <;>
      cases aclMatches outside lists r "local".toList <;>
        cases aclMatches outside lists r "localhost".toList <;> simp

/-! ## Denials -/

/-- The list contains the line the rewrite looks for and ends in `deny all`. -/
structure Listed (source : Text) : Prop where
  manager : allowManager ∈ source.splitOn '\n'
  ends : (rules source).getLast? = some ⟨false, [⟨false, "all".toList⟩]⟩

/-- A rule before the final one denies the request. -/
def DeniedEarly (outside : Text → Text → Request → Bool) (source : Text) (r : Request) : Prop :=
  ∃ before rule after, rules source = before ++ rule :: after ∧ after ≠ [] ∧ rule.allow = false ∧
    rule.applies outside (acls source) r = true ∧
    ∀ earlier ∈ before, earlier.applies outside (acls source) r = false

/-- Reading `local` as the rewrite defines it and leaving the replaced words
aside, the first line that decides is a denial, and it stands above those words
or the client is in neither of the two lists. -/
def Shielded (outside : Text → Text → Request → Bool) (source : Text) (r : Request) : Prop :=
  ∃ before line after, source.splitOn '\n' = before ++ line :: after ∧
    (∀ earlier ∈ before, decision Rule.allow
      (Rule.applies outside ((source.splitOn '\n').flatMap newAcls) r) (ownRules earlier) = none) ∧
    decision Rule.allow
      (Rule.applies outside ((source.splitOn '\n').flatMap newAcls) r) (ownRules line) = some false ∧
    ((∀ earlier ∈ before ++ [line], allowManager.isPrefixOf earlier = false) ∨
      (aclMatches outside ((source.splitOn '\n').flatMap newAcls) r "local".toList = false ∧
        aclMatches outside ((source.splitOn '\n').flatMap newAcls) r "localhost".toList = false))

theorem newRules_last (line : Text) :
    (lastAction Rule.allow (lineRules line) = none → lastAction Rule.allow (newRules line) = none) ∧
      (lastAction Rule.allow (lineRules line) = some false →
        lastAction Rule.allow (newRules line) = some false) := by
  rw [newRules_eq, insertedRules, ownRules]
  cases manager : allowManager.isPrefixOf line with
  | false => simp
  | true =>
    obtain ⟨more, rfl⟩ := List.isPrefixOf_iff_prefix.mp manager
    obtain ⟨terms, read⟩ := readLine_allowManager more
    have first : lastAction Rule.allow (lineRules (allowManager ++ more)) = some true := by
      rw [lineRules, read]
      rfl
    simp [first]

theorem converted_ends (listed : Listed source) :
    lastAction Rule.allow (rules (convert source)) = some false := by
  rw [rules_convert]
  have last : lastAction Rule.allow (rules source) = some false := by
    rw [lastAction, listed.ends]
    rfl
  rw [rules_lines] at last
  exact lastAction_flatMap (fun line _ => (newRules_last line).1) (fun line _ => (newRules_last line).2) last

/-- The converted list denies exactly the shielded requests. -/
theorem converted_denies_iff (listed : Listed source) :
    permits outside (convert source) r = false ↔ Shielded outside source r := by
  rw [permits, verdict_eq_false (converted_ends listed), rules_convert, decision_flatMap_eq_some,
    acls_convert, Shielded]
  generalize (source.splitOn '\n').flatMap newAcls = lists
  simp only [decision_newRules]
  generalize favoured : (aclMatches outside lists r "local".toList ||
    aclMatches outside lists r "localhost".toList) = flag
  cases flag with
  | false =>
    have unknown := Bool.or_eq_false_iff.mp favoured
    simp only [Bool.and_false, Bool.false_eq_true, if_false]
    constructor
    · rintro ⟨before, line, after, shape, silent, decided⟩
      exact ⟨before, line, after, shape, silent, decided, Or.inr unknown⟩
    · rintro ⟨before, line, after, shape, silent, decided, -⟩
      exact ⟨before, line, after, shape, silent, decided⟩
  | true =>
    have known : ¬(aclMatches outside lists r "local".toList = false ∧
        aclMatches outside lists r "localhost".toList = false) := by
      rw [← Bool.or_eq_false_iff, favoured]
      simp
    simp only [Bool.and_true]
    constructor
    · rintro ⟨before, line, after, shape, silent, decided⟩
      have above : ∀ earlier ∈ before ++ [line], allowManager.isPrefixOf earlier = false := by
        intro earlier member
        cases starts : allowManager.isPrefixOf earlier with
        | false => rfl
        | true =>
          rcases List.mem_append.mp member with member | member
          · have none := silent earlier member
            rw [if_pos starts] at none
            cases none
          · cases List.mem_singleton.mp member
            rw [if_pos starts] at decided
            cases decided
      refine ⟨before, line, after, shape, ?_, ?_, Or.inl above⟩
      · intro earlier member
        have none := silent earlier member
        rwa [if_neg (by simp [above earlier (List.mem_append_left _ member)])] at none
      · rwa [if_neg (by simp [above line (List.mem_append_right _ (List.mem_singleton_self line))])]
          at decided
    · rintro ⟨before, line, after, shape, silent, decided, above | unknown⟩
      · refine ⟨before, line, after, shape, ?_, ?_⟩
        · intro earlier member
          rw [above earlier (List.mem_append_left _ member), if_neg (by simp)]
          exact silent earlier member
        · rw [above line (List.mem_append_right _ (List.mem_singleton_self line)), if_neg (by simp)]
          exact decided
      · exact absurd unknown known

/-- A denial of the original list survives exactly when it is shielded. -/
theorem denial_survives_iff (outside : Text → Text → Request → Bool) (source : Text)
    (listed : Listed source) (r : Request) :
    (DeniedEarly outside source r → permits outside (convert source) r = false) ↔
      (DeniedEarly outside source r → Shielded outside source r) := by
  rw [converted_denies_iff listed]

/-- The heart of the recommended configuration. -/
def recommended : Text :=
  "acl all src 0.0.0.0/0.0.0.0\nacl manager proto cache_object\n".toList ++
  "acl localhost src 127.0.0.1/255.255.255.255\nhttp_access allow manager localhost\n".toList ++
  "http_access deny manager\nhttp_access deny all\n".toList

/-- A request for the cache manager. -/
def managerRequest (client : BitVec 32) : Request := ⟨client, "GET".toList, "cache_object".toList, 3128⟩

def denyManager : Rule := ⟨false, [⟨false, "manager".toList⟩]⟩

def denyAll : Rule := ⟨false, [⟨false, "all".toList⟩]⟩

theorem recommended_directives : directives recommended =
    [.acl ⟨"all".toList, "src".toList, ["0.0.0.0/0.0.0.0".toList]⟩,
      .acl ⟨"manager".toList, "proto".toList, ["cache_object".toList]⟩,
      .acl ⟨"localhost".toList, "src".toList, ["127.0.0.1/255.255.255.255".toList]⟩,
      .access managerRule, .access denyManager, .access denyAll] := by
  decide +kernel

theorem recommended_rules : rules recommended = [managerRule, denyManager, denyAll] := by
  rw [rules, recommended_directives]
  rfl

theorem recommended_acls : acls recommended =
    [⟨"all".toList, "src".toList, ["0.0.0.0/0.0.0.0".toList]⟩,
      ⟨"manager".toList, "proto".toList, ["cache_object".toList]⟩,
      ⟨"localhost".toList, "src".toList, ["127.0.0.1/255.255.255.255".toList]⟩] := by
  rw [acls, recommended_directives]
  rfl

theorem recommended_listed : Listed recommended where
  manager := by decide +kernel
  ends := by
    rw [recommended_rules]
    rfl

/-- Away from the local host the manager is denied before everything else is. -/
theorem recommended_denies (remote : managerRule.applies outside (acls recommended) r = false)
    (manages : denyManager.applies outside (acls recommended) r = true) :
    DeniedEarly outside recommended r := by
  refine ⟨[managerRule], denyManager, [denyAll], recommended_rules, by simp, rfl, manages, ?_⟩
  intro earlier member
  cases List.mem_singleton.mp member
  exact remote

/-- From 192.0.2.1 the manager stays out of reach. -/
theorem denial_survives_abroad :
    DeniedEarly (fun _ _ _ => false) recommended (managerRequest 0xC0000201) ∧
      permits (fun _ _ _ => false) (convert recommended) (managerRequest 0xC0000201) = false := by
  have denied : DeniedEarly (fun _ _ _ => false) recommended (managerRequest 0xC0000201) :=
    recommended_denies (by rw [recommended_acls]; decide +kernel)
      (by rw [recommended_acls]; decide +kernel)
  refine ⟨denied, (denial_survives_iff _ recommended recommended_listed _).mpr ?_ denied⟩
  intro _
  refine ⟨(recommended.splitOn '\n').take 4, "http_access deny manager".toList,
    (recommended.splitOn '\n').drop 5, ?_, ?_, ?_, Or.inr ⟨?_, ?_⟩⟩
  all_goals decide +kernel

/-- From 10.0.0.1 the manager was denied and is now allowed. -/
theorem manager_denial_lost : ∃ source r, Listed source ∧
    DeniedEarly (fun _ _ _ => false) source r ∧ permits (fun _ _ _ => false) (convert source) r = true :=
  ⟨recommended, managerRequest 0x0A000001, recommended_listed,
    recommended_denies (by rw [recommended_acls]; decide +kernel)
      (by rw [recommended_acls]; decide +kernel), by decide +kernel⟩

/-! ## Outsiders -/

/-- The input knows no list `local`, takes `localhost` from client addresses and
has the replaced words on lines of their own only. -/
structure Ordinary (source : Text) : Prop where
  foreign : ∀ acl ∈ acls source, acl.name ≠ "local".toList
  unreferenced : ∀ rule ∈ rules source, ∀ term ∈ rule.terms, term.name ≠ "local".toList
  typed : ∀ acl ∈ acls source, acl.name = "localhost".toList → acl.kind = "src".toList
  whole : ∀ line ∈ source.splitOn '\n', allowManager.isPrefixOf line = true → line = allowManager

/-- The client's address is in none of these networks. -/
def clientOutside (outside : Text → Text → Request → Bool) (networks : List Text) (r : Request) : Prop :=
  ∀ value ∈ networks, valueMatches outside "src".toList value r = false

structure Outsider (outside : Text → Text → Request → Bool) (source : Text) (r : Request) : Prop where
  localhost : ∀ acl ∈ acls source, acl.name = "localhost".toList → clientOutside outside acl.values r
  local_ : clientOutside outside localAcl.values r

theorem aclMatches_flatMap (lines : List Text) (f : Text → List Acl) (name : Text) :
    aclMatches outside (lines.flatMap f) r name =
      lines.any fun line => aclMatches outside (f line) r name := by
  simp [aclMatches, List.any_flatMap]

theorem lineAcls_mem (member : line ∈ source.splitOn '\n') (held : acl ∈ lineAcls line) :
    acl ∈ acls source := by
  rw [acls_lines]
  exact List.mem_flatMap.mpr ⟨line, member, held⟩

theorem lineRules_mem (member : line ∈ source.splitOn '\n') (held : rule ∈ lineRules line) :
    rule ∈ rules source := by
  rw [rules_lines]
  exact List.mem_flatMap.mpr ⟨line, member, held⟩

/-- A line's access lists keep their meaning, and at most `local` joins them. -/
theorem newAcls_cases (ordinary : Ordinary source) (member : line ∈ source.splitOn '\n') :
    newAcls line = lineAcls line ∨ newAcls line = lineAcls line ++ [localAcl] := by
  unfold newAcls rewritten
  cases localhost : aclLocalhost.isPrefixOf line with
  | true =>
    refine Or.inr ?_
    rw [if_pos rfl, List.filterMap_append]
    rfl
  | false =>
    refine Or.inl ?_
    cases local_ : aclLocal.isPrefixOf line with
    | true =>
      obtain ⟨more, rfl⟩ := List.isPrefixOf_iff_prefix.mp local_
      obtain ⟨kind, values, read⟩ := readLine_aclLocal more
      have held : ⟨"local".toList, kind, values⟩ ∈ lineAcls (aclLocal ++ more) := by
        rw [lineAcls, read]
        exact List.mem_singleton_self _
      exact absurd rfl (ordinary.foreign _ (lineAcls_mem member held))
    | false =>
      cases manager : allowManager.isPrefixOf line with
      | true =>
        rw [ordinary.whole line member manager]
        decide +kernel
      | false => rfl

theorem aclMatches_convert (ordinary : Ordinary source) (other : name ≠ "local".toList) :
    aclMatches outside (acls (convert source)) r name = aclMatches outside (acls source) r name := by
  have each : ∀ line ∈ source.splitOn '\n',
      aclMatches outside (newAcls line) r name = aclMatches outside (lineAcls line) r name := by
    intro line member
    have apart : localAcl.name ≠ name := Ne.symm other
    rcases newAcls_cases ordinary member with same | more
    · rw [same]
    · simp [more, aclMatches, apart]
  rw [acls_convert, acls_lines, aclMatches_flatMap, aclMatches_flatMap, Bool.eq_iff_iff,
    List.any_eq_true, List.any_eq_true]
  constructor
  · rintro ⟨line, member, found⟩
    exact ⟨line, member, each line member ▸ found⟩
  · rintro ⟨line, member, found⟩
    exact ⟨line, member, (each line member).symm ▸ found⟩

theorem aclMatches_local (ordinary : Ordinary source) (outsider : Outsider outside source r) :
    aclMatches outside (acls (convert source)) r "local".toList = false := by
  rw [acls_convert, aclMatches_flatMap, List.any_eq_false]
  intro line member
  have old : ∀ acl ∈ lineAcls line, acl.name ≠ "local".toList :=
    fun acl held => ordinary.foreign acl (lineAcls_mem member held)
  have none : aclMatches outside (lineAcls line) r "local".toList = false := by
    rw [aclMatches, List.any_eq_false]
    intro acl held
    simp only [decide_eq_false (old acl held), Bool.false_and, Bool.false_eq_true, not_false_iff]
  have last : aclMatches outside [localAcl] r "local".toList = false := by
    have values := outsider.local_
    simp only [aclMatches, List.any_cons, List.any_nil, Bool.or_false, Bool.and_eq_false_iff,
      List.any_eq_false]
    refine Or.inr ?_
    intro value held
    have miss : valueMatches outside localAcl.kind value r = false := values value held
    simp [miss]
  rcases newAcls_cases ordinary member with same | more
  · rw [same, none]
    simp
  · have both : aclMatches outside (lineAcls line ++ [localAcl]) r "local".toList = false := by
      unfold aclMatches at none last ⊢
      rw [List.any_append, none, last]
      rfl
    rw [more, both]
    simp

theorem aclMatches_localhost (ordinary : Ordinary source) (outsider : Outsider outside source r) :
    aclMatches outside (acls source) r "localhost".toList = false := by
  rw [aclMatches, List.any_eq_false]
  intro acl member
  rw [Bool.and_eq_true, decide_eq_true_iff]
  rintro ⟨named, found⟩
  obtain ⟨value, held, hit⟩ := List.any_eq_true.mp found
  rw [ordinary.typed acl member named, outsider.localhost acl member named value held] at hit
  cases hit

theorem applies_convert (ordinary : Ordinary source) (listed : rule ∈ rules source) :
    rule.applies outside (acls (convert source)) r = rule.applies outside (acls source) r := by
  have terms := ordinary.unreferenced rule listed
  rw [Rule.applies, Rule.applies, Bool.eq_iff_iff, List.all_eq_true, List.all_eq_true]
  constructor
  · intro all term member
    have here := all term member
    rwa [aclMatches_convert ordinary (terms term member)] at here
  · intro all term member
    rw [aclMatches_convert ordinary (terms term member)]
    exact all term member

/-- For an outsider each line decides as before. -/
theorem decision_outsider (ordinary : Ordinary source) (outsider : Outsider outside source r)
    (member : line ∈ source.splitOn '\n') :
    decision Rule.allow (Rule.applies outside (acls (convert source)) r) (newRules line) =
      decision Rule.allow (Rule.applies outside (acls source) r) (lineRules line) := by
  have localhost := aclMatches_localhost ordinary outsider
  have unknown : aclMatches outside (acls (convert source)) r "localhost".toList = false := by
    rw [aclMatches_convert ordinary (by decide), localhost]
  rw [decision_newRules, aclMatches_local ordinary outsider, unknown, Bool.or_false, Bool.and_false,
    if_neg (by simp), ownRules]
  cases manager : allowManager.isPrefixOf line with
  | true =>
    have same := ordinary.whole line member manager
    have read : lineRules allowManager = [managerRule] := by decide +kernel
    have nothing : lineRules (allowManager.drop allowManager.length) = [] := by decide +kernel
    rw [same, if_pos rfl, nothing, read, decision_cons]
    simp only [Rule.applies, managerRule, List.all_cons, List.all_nil, localhost]
    simp
  | false =>
    apply decision_congr
    intro rule held
    exact applies_convert ordinary (lineRules_mem member held)

theorem lastAction_ordinary (ordinary : Ordinary source) (member : line ∈ source.splitOn '\n') :
    lastAction Rule.allow (newRules line) = lastAction Rule.allow (lineRules line) := by
  cases manager : allowManager.isPrefixOf line with
  | true =>
    rw [ordinary.whole line member manager]
    decide +kernel
  | false =>
    rw [newRules_eq, insertedRules, ownRules, if_neg (by simp [manager]), if_neg (by simp [manager])]
    rfl

/-- A client outside `localhost` and the private networks gets the same verdict
from the converted configuration. -/
theorem outsider_unaffected (outside : Text → Text → Request → Bool) (source : Text)
    (ordinary : Ordinary source) (r : Request) (outsider : Outsider outside source r) :
    permits outside (convert source) r = permits outside source r := by
  rw [permits, permits, rules_convert, rules_lines]
  apply verdict_flatMap
  · intro line member
    exact decision_outsider ordinary outsider member
  · intro line member
    exact lastAction_ordinary ordinary member

/-- The manager's page from 192.0.2.1, before and after. -/
theorem outsider_unaffected_abroad :
    permits (fun _ _ _ => false) (convert recommended) (managerRequest 0xC0000201) =
      permits (fun _ _ _ => false) recommended (managerRequest 0xC0000201) := by
  have ordinary : Ordinary recommended := by
    constructor
    · rw [recommended_acls]
      decide +kernel
    · rw [recommended_rules]
      decide +kernel
    · rw [recommended_acls]
      decide +kernel
    · decide +kernel
  have outsider : Outsider (fun _ _ _ => false) recommended (managerRequest 0xC0000201) := by
    constructor <;> unfold clientOutside
    · rw [recommended_acls]
      decide +kernel
    · decide +kernel
  exact outsider_unaffected _ recommended ordinary _ outsider

end Fdgw.SquidConfig
