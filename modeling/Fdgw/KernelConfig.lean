import Fdgw.TextLines

/-!
`conf/1.6/kernel.i386/convert.pl`: the converter of kernel configuration files.

The script reads `config.disable` and `config.enable`, writes one conditional
Perl substitution per entry into a program text, wraps it into a loop over the
lines of the source file and hands it to `eval`. The text is built here exactly
as the script builds it; `eval` is a reader for the fragment of Perl the script
can produce, followed by the meaning of its statements on one line.
-/
namespace Fdgw.KernelConfig
open Patterns TextLines

/-! ## The generated program -/

/-- Perl's `quotemeta`: a backslash before every non-word character. -/
def quotemeta (text : Text) : Text :=
  text.flatMap fun c => if Atom.word.accepts c then [c] else ['\\', c]

/-- `split(/\s+/, $_)`: a leading separator leaves an empty first field,
trailing empty fields are dropped. -/
def splitSpace (text : Text) : List Text :=
  match words text with
  | [] => []
  | fields => if text.head?.any isSpace then [] :: fields else fields

/-- The `$_regexp` of one entry. -/
def entryRegexp (entry : Text) : Text :=
  (splitSpace entry).flatMap fun e => ".*".toList ++ quotemeta e

/-- The lines of a list file that are true after `chomp`. -/
def entries (file : Text) : List Text :=
  ((readLines file).map chomp).filter fun line => line ≠ [] ∧ line ≠ ['0']

def disableLine (entry : Text) : Text :=
  "\ts/^/\\#/ if /^\\w/ &&/^".toList ++ entryRegexp entry ++ "/;\n".toList

def enableLine (entry : Text) : Text :=
  "\ts/^\\#// if /^\\#".toList ++ entryRegexp entry ++ "/;\n".toList

/-- `$regexp` after `load_config_disable` and `load_config_enable`. -/
def regexp (disable enable : Text) : Text :=
  "\n".toList ++ "\n\t# disable\n".toList ++ (entries disable).flatMap disableLine ++
    "\n\t# enable\n".toList ++ (entries enable).flatMap enableLine

/-- The text passed to `eval`. -/
def program (disable enable : Text) : Text :=
  "\n\twhile (<$fh>) \x7b\n\t    ".toList ++ regexp disable enable ++
    ";\n\t    print;\n\t\x7d\n    ".toList

/-! ## Reading it back -/

/-- `s/^target/replacement/ if /^g1/ && /^g2/ …;` -/
structure Statement where
  target : Pattern
  replacement : Text
  guards : List Pattern
  deriving DecidableEq, Repr

/-- The meaning of a backslash escape in a regular expression: a word-character
class, or a quoted non-word character. -/
def escaped (c : Char) : Option Atom :=
  if c = 'w' then some .word else if Atom.word.accepts c then none else some (.lit c)

/-- The rest of a regular expression literal, up to its closing slash. Only
word characters stand for themselves; `matched` is what has been read, last
item first. -/
def readRegexp : Pattern → Text → Option (Pattern × Text)
  | matched, '/' :: rest => some (matched.reverse, rest)
  | .one a :: matched, '*' :: rest => readRegexp (.many a :: matched) rest
  | matched, '\\' :: c :: rest => do
    let atom ← escaped c
    readRegexp (.one atom :: matched) rest
  | matched, '.' :: rest => readRegexp (.one .dot :: matched) rest
  | matched, c :: rest =>
    if Atom.word.accepts c then readRegexp (.one (.lit c) :: matched) rest else none
  | _, [] => none

/-- The replacement half of a substitution, up to its closing slash. -/
def readReplacement : Text → Option (Text × Text)
  | '/' :: rest => some ([], rest)
  | '\\' :: c :: rest =>
    if Atom.word.accepts c then none
    else (readReplacement rest).map fun (text, after) => (c :: text, after)
  | c :: rest =>
    if Atom.word.accepts c then (readReplacement rest).map fun (text, after) => (c :: text, after)
    else none
  | [] => none

def strip (expected text : Text) : Option Text := matchPrefix (literally expected) text

/-- The guards after `if`, joined by `&&` and closed by a semicolon. `fuel`
bounds their number. -/
def readGuards : Nat → Text → Option (List Pattern)
  | 0, _ => none
  | fuel + 1, text => do
    let text ← strip "/^".toList text
    let (guard, rest) ← readRegexp [] text
    if rest = [';'] then some [guard]
    else
      let rest ← strip " &&".toList rest
      let guards ← readGuards fuel rest
      some (guard :: guards)

def readStatement (line : Text) : Option Statement := do
  let text ← strip "s/^".toList line
  let (target, text) ← readRegexp [] text
  let (replacement, text) ← readReplacement text
  let text ← strip " if ".toList text
  let guards ← readGuards text.length text
  some ⟨target, replacement, guards⟩

/-- Indentation, blank lines, comments and empty statements mean nothing. -/
def significant (text : Text) : List Text :=
  (((text.splitOn '\n').map fun line => line.dropWhile fun c => c = ' ' ∨ c = '\t').filter
    fun line => line ≠ [] ∧ line ≠ [';'] ∧ line.head? ≠ some '#')

/-- The statements of a `while (<$fh>) { …; print; }` loop. -/
def readProgram (text : Text) : Option (List Statement) :=
  match significant text with
  | first :: rest =>
    if first = "while (<$fh>) \x7b".toList ∧
        rest.drop (rest.length - 2) = ["print;".toList, "\x7d".toList] then
      (rest.take (rest.length - 2)).mapM readStatement
    else none
  | [] => none

/-! ## Running it -/

def Statement.run (s : Statement) (line : Text) : Text :=
  if s.guards.all fun guard => matchesAtStart guard line then substitute s.target s.replacement line
  else line

/-- The loop body: every statement sees what the ones before it left. -/
def runStatements (statements : List Statement) (line : Text) : Text :=
  statements.foldl (fun line s => s.run line) line

/-- What `convert.pl` prints after its header, one `print` per source line. -/
def convertLines (disable enable source : Text) : Option (List Text) :=
  (readProgram (program disable enable)).map fun statements =>
    (readLines source).map (runStatements statements)

def convert (disable enable source : Text) : Option Text :=
  (convertLines disable enable source).map List.flatten

/-- The shipped `config.enable`. -/
def configEnable : Text :=
  ("file-system\tKERNFS  \n" ++ "options\t\tGATEWAY\n" ++ "options         INSECURE  \n" ++
    "pc0 at\n" ++ "pseudo-device\tipfilter\n" ++
    "config                netbsd  root on ? type ?\n").toList

/-! ## The converter of release 1.5 -/

namespace Release15

/-- The patterns that make a comment a directive, each with its first word. -/
def enabling : List (Text × Pattern) :=
  [("pseudo-device".toList,
      literally "pseudo-device".toList ++ [.many .space] ++ literally "ipfilter".toList),
   ("options".toList, literally "options".toList ++ [.many .space] ++ literally "GATEWAY".toList)]

def fileSystem (name : Text) : Pattern :=
  literally "file-system".toList ++ [.many .space] ++ literally name

def disabling : List Pattern :=
  [literally "COMPAT_1".toList ++ [.one (.range [('0', '0'), ('1', '1'), ('2', '2'), ('3', '3')])],
   literally "DDB".toList,
   literally "atapibus".toList,
   .one (.range [('u', 'u'), ('o', 'o')]) :: literally "hci".toList,
   literally "uhub".toList ++ [.one .dot],
   literally "ukbd".toList ++ [.one .dot],
   literally "umass".toList ++ [.one .dot],
   literally "isapnp".toList ++ [.one .dot],
   literally "pseudo-device".toList ++ [.many .space] ++ literally "sl".toList ++ [.many .space],
   fileSystem "EXT2FS".toList, fileSystem "MFS".toList, fileSystem "NFS".toList,
   fileSystem "NTFS".toList, fileSystem "CD9660".toList]

/-- The body of the loop. -/
def convertLine (line : Text) : Text :=
  if line.head? = some '#' then
    if enabling.any fun entry => search entry.2 line then
      substitute [.one (.lit '#'), .many .space] [] line
    else line
  else if disabling.any fun pattern => search pattern line then '#' :: line
  else line

/-- What the script prints after its header. -/
def convertLines (source : Text) : List Text := (readLines source).map convertLine

end Release15

end Fdgw.KernelConfig
