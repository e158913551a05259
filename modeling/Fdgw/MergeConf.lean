import Fdgw.ShellWords

/-! `merge_conf.awk` turns the `rc.conf` of a model into a `sed` command that
edits the defaults. The `image` target of `Makefile.bootfloppy` pipes that
command to `sh` to write the `rc.conf` of the image, and `rc.router` sources
the defaults and then that file. -/
namespace Fdgw.MergeConf
open Patterns TextLines ShellWords

/-! ## merge_conf.awk -/

/-- `-v MASTER=conf/etc/defaults/rc.conf` -/
def master : Text := "conf/etc/defaults/rc.conf".toList

/-- `split($1, x, "=")`: the elements `x[1]` and `x[2]`, empty where the split
leaves them unset. -/
def splitFirst (line : Text) : Text × Text :=
  let x := ((fields isBlank line).headD []).splitOn '='
  (x.headD [], x[1]?.getD [])

/-- The splits of the lines that match `/=/`. -/
def settings (model : Text) : List (Text × Text) :=
  ((model.splitOn '\n').filter (·.contains '=')).map splitFirst

def rule (x : Text × Text) : Text :=
  "\t-e s/^".toList ++ x.1 ++ "=[A-Za-z0-9]*/".toList ++ x.1 ++ "=".toList ++ x.2 ++
    "/ \\\n".toList

/-- `print "\t" MASTER "\n"` -/
def lastLines : Text := "\t".toList ++ master ++ "\n\n".toList

/-- What the script prints for a model. -/
def mergeConf (model : Text) : Text :=
  "sed \\\n".toList ++ (settings model).flatMap rule ++ lastLines

/-! ## sed -/

/-- Characters that stand for themselves in a basic regular expression. -/
def isOrdinary (c : Char) : Bool := Atom.word.accepts c || c == '#'

/-- The regular expressions a rule can hold behind `^`. -/
def regexp (text : Text) : Option Pattern :=
  let name := text.takeWhile isOrdinary
  if text = name ++ "=[A-Za-z0-9]*".toList then some (literally (name ++ ['=']) ++ [.many .alnum])
  else none

inductive Expression where
  | substitution (pattern : Pattern) (replacement : Text)
  | invalid
  deriving DecidableEq, Repr

/-- An argument of `-e`. No rule has flags: what stands behind a third slash of
an argument is a part of a value or of further rules, and `sed` refuses it
because it starts with a blank or ends in a slash. -/
def expression (text : Text) : Option Expression :=
  match text.splitOn '/' with
  | ['s'] :: ('^' :: anchored) :: replacement :: flags =>
    if flags = [[]] then (regexp anchored).map fun pattern => .substitution pattern replacement
    else some .invalid
  | _ => none

inductive Sed where
  | program (edits : List (Pattern × Text)) (file : Text)
  | invalid
  deriving DecidableEq, Repr

def Sed.add (pattern : Pattern) (replacement : Text) : Sed → Sed
  | .program edits file => .program ((pattern, replacement) :: edits) file
  | .invalid => .invalid

/-- `sed -e expression … file` -/
def sedArguments : List Text → Option Sed
  | [] => none
  | [file] => some (.program [] file)
  | option :: text :: rest =>
    if option = "-e".toList then
      match expression text with
      | some (.substitution pattern replacement) => (sedArguments rest).map (.add pattern replacement)
      | some .invalid => some .invalid
      | none => none
    else none

/-- The commands of a script edit a line one after the other. -/
def edit (edits : List (Pattern × Text)) (line : Text) : Text :=
  edits.foldl (fun line e => substitute e.1 e.2 line) line

def sed (edits : List (Pattern × Text)) (text : Text) : Text :=
  ((readLines text).map (edit edits)).flatten

/-! ## sh -/

inductive Ran where
  | wrote (text : Text)
  | failed
  deriving DecidableEq, Repr

def isScriptChar (c : Char) : Bool :=
  isOrdinary c || isQuote c ||
    c ∈ ['-', '.', ',', ':', '+', '@', '%', '/', '^', '=', '[', ']', '*', ' ', '\t']

/-- Scripts of one command in characters that are not acted upon by the shell,
quotes and continued lines apart. The first argument says that a backslash
stands before the text. -/
def isSimple : Bool → Text → Bool
  | escaped, [] => !escaped
  | true, c :: rest => c == '\n' && isSimple false rest
  | false, c :: rest =>
    if c = '\\' then isSimple true rest
    else if c = '\n' then rest.all (· == '\n')
    else isScriptChar c && isSimple false rest

def command (other : Ran) (defaults : Text) : List Text → Ran
  | [] => other
  | name :: arguments =>
    if name = "sed".toList then
      match sedArguments arguments with
      | some .invalid => .failed
      | some (.program edits file) =>
        if edits ≠ [] ∧ file = master then .wrote (sed edits defaults) else other
      | none => other
    else other

/-- `| sh > etc/rc.conf`, with the defaults as the contents of `master`. A
simple script without words has an open quote, which is a syntax error. What
any other script does is left to `other`. -/
def sh (other : Text → Ran) (defaults script : Text) : Ran :=
  if isSimple false script then
    match shellWords script with
    | some arguments => command (other script) defaults arguments
    | none => .failed
  else other script

/-! ## rc.router -/

/-- `load_file /etc/defaults/rc.conf` and `load_file /etc/rc.conf`. -/
def loadConf (env : Env) (defaults conf : Text) : Option Env :=
  (source env defaults).bind fun loaded => source loaded conf

/-- Whatever the merge writes, the router comes up with the variables the model
itself would have given it. -/
def Agrees (other : Text → Ran) (defaults model : Text) : Prop :=
  ∀ merged, sh other defaults (mergeConf model) = .wrote merged →
    ∀ env, loadConf env defaults merged = loadConf env defaults model

end Fdgw.MergeConf
