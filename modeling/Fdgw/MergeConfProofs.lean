import Fdgw.MergeConf

/-! The program that `merge_conf.awk` prints is read back by `sh` and `sed` as
one substitution for each setting, or refused. -/
namespace Fdgw.MergeConf
open Patterns TextLines ShellWords

/-! ## Settings -/

def isValueChar (c : Char) : Bool := isOrdinary c || c ∈ ['-', '.', ',', ':', '+', '@', '%', '/']

/-- A value without its quotes. The first field may end before a quote is closed. -/
def content : Text → Text
  | [] => []
  | c :: rest =>
    if isQuote c then if rest.getLast? = some c then rest.dropLast else rest else c :: rest

/-- The first field ends within the quotes of the value. -/
def opened : Text → Bool
  | [] => false
  | c :: rest => isQuote c && rest.getLast? != some c

structure Setting (x : Text × Text) : Prop where
  name : ∀ c ∈ x.1, isOrdinary c = true
  value : ∀ c ∈ content x.2, isValueChar c = true

/-- Settings that make `sh` or `sed` refuse the whole program. -/
def Refused (x : Text × Text) : Prop := opened x.2 = true ∨ '/' ∈ content x.2

/-- The substitution that a setting asks for. -/
def substitution (x : Text × Text) : Pattern × Text :=
  (literally (x.1 ++ ['=']) ++ [.many .alnum], x.1 ++ '=' :: content x.2)

theorem value_forms (value : Text) : (opened value = false ∧ value = content value) ∨
    ∃ quote, isQuote quote = true ∧
      ((opened value = false ∧ value = quote :: (content value ++ [quote])) ∨
        (opened value = true ∧ value = quote :: content value)) := by
  cases value with
  | nil => exact Or.inl ⟨rfl, rfl⟩
  | cons c rest =>
    by_cases quote : isQuote c = true
    · refine Or.inr ⟨c, quote, ?_⟩
      by_cases last : rest.getLast? = some c
      · left
        simp [opened, content, quote, last, List.dropLast_append_getLast? c last]
      · right
        simp [opened, content, quote, last]
    · left
      simp [opened, content, quote]

/-! ## Characters -/

theorem isOrdinary_cases (ordinary : isOrdinary c = true) :
    Atom.word.accepts c = true ∨ c = '#' := by
  simpa [isOrdinary] using ordinary

theorem ordinary_isPlain (ordinary : isOrdinary c = true) :
    isPlain c = true ∧ c ≠ '=' ∧ c ≠ '/' := by
  rcases isOrdinary_cases ordinary with accepted | rfl
  · obtain ⟨plain, -, equals⟩ := word_isPlain accepted
    refine ⟨plain, equals, ?_⟩
    rintro rfl
    exact absurd accepted (by decide)
  · decide

theorem valueChar_accepts {accepts : Char → Bool} (valued : isValueChar c = true)
    (ordinary : isOrdinary c = true → accepts c = true)
    (others : ['-', '.', ',', ':', '+', '@', '%', '/'].all accepts = true) : accepts c = true := by
  simp only [isValueChar, Bool.or_eq_true, decide_eq_true_eq] at valued
  rcases valued with plain | listed
  · exact ordinary plain
  · exact List.all_eq_true.mp others c listed

theorem valueChar_isPlain (valued : isValueChar c = true) : isPlain c = true :=
  valueChar_accepts valued (fun ordinary => (ordinary_isPlain ordinary).1) (by decide)

/-! ## Words -/

/-- A rule up to the value. -/
def stem (name : Text) : Text :=
  's' :: ("/^".toList ++ name ++ "=[A-Za-z0-9]*/".toList ++ name ++ "=".toList)

theorem rule_eq (x : Text × Text) :
    rule x = '\t' :: ("-e".toList ++ ' ' :: (stem x.1 ++ (x.2 ++ "/ \\\n".toList))) := by
  have front : "\t-e s/^".toList = '\t' :: ("-e".toList ++ ' ' :: 's' :: "/^".toList) := by rfl
  unfold rule stem
  rw [front]
  simp only [List.append_assoc, List.cons_append]

theorem stem_isPlain (ordinary : ∀ c ∈ name, isOrdinary c = true) :
    ∀ c ∈ "/^".toList ++ name ++ "=[A-Za-z0-9]*/".toList ++ name ++ "=".toList, isPlain c = true := by
  have names : ∀ c ∈ name, isPlain c = true := fun c member => (ordinary_isPlain (ordinary c member)).1
  have anchor : "/^".toList.all isPlain = true := by decide
  have class_ : "=[A-Za-z0-9]*/".toList.all isPlain = true := by decide
  have equals : "=".toList.all isPlain = true := by decide
  rw [List.all_eq_true] at anchor class_ equals
  intro c member
  simp only [List.mem_append] at member
  rcases member with (((member | member) | member) | member) | member
  · exact anchor c member
  · exact names c member
  · exact class_ c member
  · exact names c member
  · exact equals c member

/-- The words of a rule, up to the value. -/
theorem lex_stem (ordinary : ∀ c ∈ name, isOrdinary c = true) (rest : Text) :
    lex .between ('\t' :: ("-e".toList ++ ' ' :: (stem name ++ rest))) =
      (lex .bare rest).map fun pieces =>
        "-e".toList.map .bare :: prepend ((stem name).map .bare) pieces := by
  have option : lex .between ('-' :: ['e'] ++ ' ' :: (stem name ++ rest)) =
      (lex .bare (' ' :: (stem name ++ rest))).map (prepend (('-' :: ['e']).map .bare)) :=
    lex_between_text (by decide) (by decide) (List.all_eq_true.mp (by decide)) _
  have letters : "-e".toList = '-' :: ['e'] := rfl
  rw [lex_between_gap (by decide), letters, option, lex_bare_gap (by decide), stem,
    lex_between_text (by decide) (by decide) (stem_isPlain ordinary), Option.map_map, Option.map_map]
  rfl

/-- A value that closes its quotes adds its content to the word. -/
theorem lex_value (plain : ∀ c ∈ content value, isValueChar c = true) (closed : opened value = false)
    (rest : Text) : ∃ letters, wordText letters = content value ∧
      lex .bare (value ++ rest) = (lex .bare rest).map (prepend letters) := by
  have letters : ∀ c ∈ content value, isPlain c = true :=
    fun c member => valueChar_isPlain (plain c member)
  rcases value_forms value with ⟨-, same⟩ | ⟨quote, quoted, ⟨-, shape⟩ | ⟨open_, -⟩⟩
  · refine ⟨(content value).map .bare, wordText_bare _, ?_⟩
    conv_lhs => rw [same]
    exact lex_bare_text letters rest
  · refine ⟨.quote :: (content value).map .quoted, by simp [Letter.text], ?_⟩
    have inner : ∀ c ∈ content value, c ≠ quote ∧ c ≠ '\\' ∧ isSpecial c = false :=
      fun c member => plain_inside quoted (Or.inl (letters c member))
    have closing : lex (.inside quote) (quote :: rest) = lex .bare rest := by
      rw [lex_inside_cons, if_pos rfl]
    conv_lhs => rw [shape]
    rw [List.cons_append, List.append_assoc, lex_bare_quote quoted, lex_inside_text inner,
      List.singleton_append, closing, Option.map_map]
    congr 1
    funext pieces
    exact prepend_prepend [.quote] ((content value).map .quoted) pieces
  · rw [closed] at open_
    cases open_

/-- What follows a value that closes its quotes is read as the next rule. -/
theorem shellWords_rule (setting : Setting x) (closed : opened x.2 = false) (rest : Text) :
    shellWords (rule x ++ rest) = (shellWords rest).map fun texts =>
      "-e".toList :: (stem x.1 ++ (content x.2 ++ ['/'])) :: texts := by
  obtain ⟨letters, meaning, value⟩ := lex_value setting.value closed ("/ \\\n".toList ++ rest)
  have slash : lex .bare ("/ \\\n".toList ++ rest) = (lex .between rest).map ([.bare '/'] :: ·) := by
    have shape : "/ \\\n".toList ++ rest = '/' :: ' ' :: '\\' :: '\n' :: rest := rfl
    rw [shape, lex_bare_plain (by decide), lex_bare_gap (by decide), lex_continued, Option.map_map]
    rfl
  rw [shellWords, rule_eq]
  simp only [List.cons_append, List.append_assoc]
  rw [lex_stem setting.name, value, slash]
  simp only [shellWords, Option.map_map]
  congr 1
  funext pieces
  simp [Function.comp_def, prepend, meaning, Letter.text]

/-- A value that leaves its quotes open swallows the slash behind it. -/
theorem shellWords_opened (setting : Setting x) (open_ : opened x.2 = true) (rest : Text) :
    shellWords (rule x ++ rest) = none ∨ ∃ more texts, shellWords (rule x ++ rest) =
      some ("-e".toList :: (stem x.1 ++ (content x.2 ++ '/' :: ' ' :: more)) :: texts) := by
  obtain ⟨quote, quoted, shape⟩ : ∃ quote, isQuote quote = true ∧ x.2 = quote :: content x.2 := by
    rcases value_forms x.2 with ⟨closed, -⟩ | ⟨quote, quoted, ⟨closed, -⟩ | ⟨-, shape⟩⟩
    · simp [closed] at open_
    · simp [closed] at open_
    · exact ⟨quote, quoted, shape⟩
  have inner : ∀ c ∈ content x.2 ++ ['/', ' '], c ≠ quote ∧ c ≠ '\\' ∧ isSpecial c = false := by
    intro c member
    apply plain_inside quoted
    simp only [List.mem_append, List.mem_cons, List.not_mem_nil, or_false] at member
    rcases member with member | rfl | rfl
    · exact Or.inl (valueChar_isPlain (setting.value c member))
    · exact Or.inl (by decide)
    · exact Or.inr rfl
  have front : rule x ++ rest = '\t' :: ("-e".toList ++ ' ' :: (stem x.1 ++
      (quote :: ((content x.2 ++ ['/', ' ']) ++ '\\' :: '\n' :: rest)))) := by
    rw [rule_eq]
    conv_lhs => rw [shape]
    simp
  rw [shellWords, front, lex_stem setting.name, lex_bare_quote quoted, lex_inside_text inner]
  cases within : lex (.inside quote) ('\\' :: '\n' :: rest) with
  | none => exact Or.inl rfl
  | some pieces =>
    right
    obtain ⟨piece, pieces, rfl⟩ := List.exists_cons_of_ne_nil (lex_inWord rfl within)
    refine ⟨wordText piece, pieces.map wordText, ?_⟩
    simp [prepend, Letter.text]

/-! ## Expressions -/

theorem regexp_named (ordinary : ∀ c ∈ name, isOrdinary c = true) :
    regexp (name ++ "=[A-Za-z0-9]*".toList) = some (literally (name ++ ['=']) ++ [.many .alnum]) := by
  have taken : (name ++ "=[A-Za-z0-9]*".toList).takeWhile isOrdinary = name := by
    rw [List.takeWhile_append_of_pos ordinary]
    simp [isOrdinary, Atom.accepts, Atom.word]
  unfold regexp
  simp only [taken, ↓reduceIte]

theorem expression_stem (ordinary : ∀ c ∈ name, isOrdinary c = true) (free : '/' ∉ front) (rest : Text) :
    expression (stem name ++ (front ++ '/' :: rest)) =
      some (if rest = [] then .substitution (literally (name ++ ['=']) ++ [.many .alnum])
        (name ++ '=' :: front) else .invalid) := by
  have names : '/' ∉ name := fun member => (ordinary_isPlain (ordinary _ member)).2.2 rfl
  have shape : stem name ++ (front ++ '/' :: rest) = ['s'] ++ '/' ::
      (('^' :: (name ++ "=[A-Za-z0-9]*".toList)) ++ '/' :: ((name ++ '=' :: front) ++ '/' :: rest)) := by
    simp [stem]
  have pieces : (stem name ++ (front ++ '/' :: rest)).splitOn '/' = ['s'] ::
      ('^' :: (name ++ "=[A-Za-z0-9]*".toList)) :: (name ++ '=' :: front) :: rest.splitOn '/' := by
    rw [shape, List.splitOn_append_cons_self_of_not_mem (by decide),
      List.splitOn_append_cons_self_of_not_mem (by simp [names]),
      List.splitOn_append_cons_self_of_not_mem (by simp [names, free])]
  have flags : rest.splitOn '/' = [[]] ↔ rest = [] := by
    constructor
    · intro single
      have whole : ['/'].intercalate (rest.splitOn '/') = rest := List.intercalate_splitOn '/'
      rw [single] at whole
      exact whole.symm
    · rintro rfl
      rfl
  rw [expression, pieces]
  simp only [regexp_named ordinary, flags]
  split <;> rfl

/-! ## Programs -/

theorem expression_rule (setting : Setting x) (accepted : ¬Refused x) :
    expression (stem x.1 ++ (content x.2 ++ ['/'])) =
      some (.substitution (substitution x).1 (substitution x).2) := by
  have free : '/' ∉ content x.2 := fun member => accepted (Or.inr member)
  rw [expression_stem setting.name free, if_pos rfl]
  rfl

theorem expression_refused (setting : Setting x) (refused : '/' ∈ content x.2 ∨ more ≠ []) :
    expression (stem x.1 ++ (content x.2 ++ '/' :: more)) = some .invalid := by
  by_cases slash : '/' ∈ content x.2
  · obtain ⟨front, back, shape, free⟩ := List.eq_append_cons_of_mem slash
    rw [shape, List.append_assoc, List.cons_append, expression_stem setting.name free,
      if_neg (by simp)]
  · rw [expression_stem setting.name slash, if_neg (refused.resolve_left slash)]

theorem shellWords_master : shellWords lastLines = some [master] := by
  decide +kernel

theorem sedArguments_expression (text : Text) (texts : List Text) :
    sedArguments ("-e".toList :: text :: texts) = (expression text).bind fun
      | .substitution pattern replacement => (sedArguments texts).map (.add pattern replacement)
      | .invalid => some .invalid := by
  rw [sedArguments, if_pos rfl]
  rcases expression text with _ | _ | _ <;> rfl

variable {xs : List (Text × Text)}

theorem sedArguments_accepted (settings : ∀ x ∈ xs, Setting x) (accepted : ∀ x ∈ xs, ¬Refused x) :
    ∃ texts, shellWords (xs.flatMap rule ++ lastLines) = some texts ∧
      sedArguments texts = some (.program (xs.map substitution) master) := by
  induction xs with
  | nil => exact ⟨[master], shellWords_master, rfl⟩
  | cons x xs ih =>
    obtain ⟨setting, settings⟩ := List.forall_mem_cons.mp settings
    obtain ⟨fine, accepted⟩ := List.forall_mem_cons.mp accepted
    obtain ⟨texts, lexed, parsed⟩ := ih settings accepted
    have closed : opened x.2 = false := by
      cases open_ : opened x.2 with
      | false => rfl
      | true => exact absurd (Or.inl open_) fine
    refine ⟨"-e".toList :: (stem x.1 ++ (content x.2 ++ ['/'])) :: texts, ?_, ?_⟩
    · rw [List.flatMap_cons, List.append_assoc, shellWords_rule setting closed, lexed]
      rfl
    · rw [sedArguments_expression, expression_rule setting fine, Option.bind_some, parsed]
      rfl

theorem sedArguments_refused (settings : ∀ x ∈ xs, Setting x) (refused : ∃ x ∈ xs, Refused x) :
    shellWords (xs.flatMap rule ++ lastLines) = none ∨
      ∃ texts, shellWords (xs.flatMap rule ++ lastLines) = some texts ∧
        sedArguments texts = some .invalid := by
  induction xs with
  | nil =>
    obtain ⟨x, member, -⟩ := refused
    cases member
  | cons x xs ih =>
    obtain ⟨setting, settings⟩ := List.forall_mem_cons.mp settings
    rw [List.flatMap_cons, List.append_assoc]
    cases open_ : opened x.2 with
    | true =>
      rcases shellWords_opened setting open_ (xs.flatMap rule ++ lastLines) with
        nothing | ⟨more, texts, lexed⟩
      · exact Or.inl nothing
      · refine Or.inr ⟨_, lexed, ?_⟩
        rw [sedArguments_expression, expression_refused setting (Or.inr (by simp)), Option.bind_some]
    | false =>
      rw [shellWords_rule setting open_]
      by_cases slash : '/' ∈ content x.2
      · cases shellWords (xs.flatMap rule ++ lastLines) with
        | none => exact Or.inl rfl
        | some texts =>
          refine Or.inr ⟨_, rfl, ?_⟩
          rw [sedArguments_expression, expression_refused setting (Or.inl slash), Option.bind_some]
      · have fine : ¬Refused x := by simp [Refused, open_, slash]
        have later : ∃ x ∈ xs, Refused x := by simpa [fine] using refused
        rcases ih settings later with nothing | ⟨texts, lexed, parsed⟩
        · exact Or.inl (by rw [nothing, Option.map_none])
        · refine Or.inr ⟨_, by rw [lexed, Option.map_some], ?_⟩
          rw [sedArguments_expression, expression_rule setting fine, Option.bind_some, parsed]
          rfl

/-! ## Scripts -/

theorem scriptChar_ne (script : isScriptChar c = true) : c ≠ '\\' ∧ c ≠ '\n' := by
  constructor
  · rintro rfl
    exact absurd script (by decide)
  · rintro rfl
    exact absurd script (by decide)

theorem isSimple_text (script : ∀ c ∈ text, isScriptChar c = true) (rest : Text) :
    isSimple false (text ++ rest) = isSimple false rest := by
  induction text with
  | nil => rfl
  | cons c text ih =>
    obtain ⟨here, others⟩ := List.forall_mem_cons.mp script
    obtain ⟨backslash, newline⟩ := scriptChar_ne here
    rw [List.cons_append, isSimple, if_neg backslash, if_neg newline, here, Bool.true_and, ih others]

theorem ordinary_scriptChar (ordinary : isOrdinary c = true) : isScriptChar c = true := by
  simp [isScriptChar, ordinary]

theorem value_scriptChar (valued : ∀ c ∈ content value, isValueChar c = true) :
    ∀ c ∈ value, isScriptChar c = true := by
  have inner : ∀ c ∈ content value, isScriptChar c = true :=
    fun c member => valueChar_accepts (valued c member) ordinary_scriptChar (by decide)
  have quotes : ∀ quote, isQuote quote = true → isScriptChar quote = true := by
    intro quote quoted
    simp [isScriptChar, quoted]
  intro c member
  rcases value_forms value with ⟨-, same⟩ | ⟨quote, quoted, ⟨-, shape⟩ | ⟨-, shape⟩⟩
  · rw [same] at member
    exact inner c member
  · rw [shape] at member
    simp only [List.mem_cons, List.mem_append, List.not_mem_nil, or_false] at member
    rcases member with rfl | member | rfl
    · exact quotes c quoted
    · exact inner c member
    · exact quotes c quoted
  · rw [shape] at member
    rcases List.mem_cons.mp member with rfl | member
    · exact quotes c quoted
    · exact inner c member

theorem isSimple_rule (setting : Setting x) (rest : Text) :
    isSimple false (rule x ++ rest) = isSimple false rest := by
  have names : ∀ c ∈ x.1, isScriptChar c = true :=
    fun c member => ordinary_scriptChar (setting.name c member)
  have ending : isSimple false ("/ \\\n".toList ++ rest) = isSimple false rest := by
    have shape : "/ \\\n".toList ++ rest = ['/', ' '] ++ '\\' :: '\n' :: rest := rfl
    rw [shape, isSimple_text (List.all_eq_true.mp (by decide))]
    rfl
  unfold rule
  simp only [List.append_assoc]
  rw [isSimple_text (List.all_eq_true.mp (by decide)), isSimple_text names, isSimple_text (List.all_eq_true.mp (by decide)), isSimple_text names,
    isSimple_text (List.all_eq_true.mp (by decide)), isSimple_text (value_scriptChar setting.value), ending]

theorem isSimple_rules (settings : ∀ x ∈ xs, Setting x) :
    isSimple false (xs.flatMap rule ++ lastLines) = true := by
  induction xs with
  | nil => decide +kernel
  | cons x xs ih =>
    obtain ⟨setting, settings⟩ := List.forall_mem_cons.mp settings
    rw [List.flatMap_cons, List.append_assoc, isSimple_rule setting, ih settings]

/-- Models whose first fields are like those of the shipped ones. -/
structure Shipped (model : Text) : Prop where
  some : settings model ≠ []
  all : ∀ x ∈ settings model, Setting x

theorem isSimple_mergeConf (shipped : Shipped model) : isSimple false (mergeConf model) = true := by
  have front : "sed \\\n".toList = ['s', 'e', 'd', ' '] ++ ['\\', '\n'] := rfl
  unfold mergeConf
  rw [front, List.append_assoc, List.append_assoc, isSimple_text (List.all_eq_true.mp (by decide))]
  exact isSimple_rules shipped.all

theorem shellWords_mergeConf (model : Text) : shellWords (mergeConf model) =
    (shellWords ((settings model).flatMap rule ++ lastLines)).map ("sed".toList :: ·) := by
  have front : "sed \\\n".toList ++ (settings model).flatMap rule ++ lastLines =
      's' :: ['e', 'd'] ++ ' ' :: '\\' :: '\n' :: ((settings model).flatMap rule ++ lastLines) := rfl
  unfold mergeConf
  rw [front, shellWords, lex_between_text (by decide) (by decide) (List.all_eq_true.mp (by decide)),
    lex_bare_gap (by decide), lex_continued, shellWords]
  simp only [Option.map_map]
  rfl

/-- One refused setting makes the merge write nothing. -/
theorem sh_refused (shipped : Shipped model) (refused : ∃ x ∈ settings model, Refused x)
    (other : Text → Ran) (defaults : Text) : sh other defaults (mergeConf model) = .failed := by
  rw [sh, if_pos (isSimple_mergeConf shipped), shellWords_mergeConf]
  rcases sedArguments_refused shipped.all refused with nothing | ⟨texts, lexed, parsed⟩
  · rw [nothing]
    rfl
  · rw [lexed, Option.map_some]
    simp only [command, ↓reduceIte, parsed]

/-- The merge edits the defaults with one substitution for each setting. -/
theorem sh_accepted (shipped : Shipped model) (accepted : ∀ x ∈ settings model, ¬Refused x)
    (other : Text → Ran) (defaults : Text) : sh other defaults (mergeConf model) =
      .wrote (sed ((settings model).map substitution) defaults) := by
  obtain ⟨texts, lexed, parsed⟩ := sedArguments_accepted shipped.all accepted
  rw [sh, if_pos (isSimple_mergeConf shipped), shellWords_mergeConf, lexed, Option.map_some]
  simp [command, parsed, shipped.some]

end Fdgw.MergeConf
