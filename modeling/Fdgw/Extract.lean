import Fdgw.Runs
import Fdgw.TextLines
import Mathlib.Data.List.DropRight

/-!
`src/utils/extract.sh`: unpacking third-party packages below `PKG_DIR`.

One event starts an invocation and one handles a tarball of its argument list.
What the script finds outside (the digest of the file, what `tar` leaves
behind) comes with the event, so files may be absent or change between
invocations. `history` records what was done, latest first.
-/
namespace Fdgw.Extract
open Patterns TextLines

/-- The packages in the order of the script's inner loop. -/
inductive Prog where
  | squid | jftpgw | zebra | racoon | pim6sd
  deriving DecidableEq, Repr

def Prog.all : List Prog := [.squid, .jftpgw, .zebra, .racoon, .pim6sd]

def Prog.text : Prog → Text
  | .squid => "squid".toList
  | .jftpgw => "jftpgw".toList
  | .zebra => "zebra".toList
  | .racoon => "racoon".toList
  | .pim6sd => "pim6sd".toList

/-- The files of `src/patches/<package>`; only racoon has such a directory. -/
def patchSet : Prog → List Text
  | .racoon => ["patch-aa".toList, "patch-ab".toList, "patch-ac".toList, "patch-ad".toList,
      "patch-ae".toList, "patch-af".toList, "patch-ag".toList]
  | _ => []

/-- An argument of the script and what is found under that name: the digest
printed for it, if the file can be read, and the top directories `tar` leaves. -/
structure Tarball where
  tgz : Text
  digest : Option Text
  tops : List Text
  complete : Bool
  printed : ∀ d ∈ digest, d ≠ [] ∧ '\n' ∉ d

inductive Deed where
  | checked (tgz : Text) (digest : Option Text)
  | unpacked (tgz : Text) (tops : List Text) (complete : Bool)
  | moved (source target : Text)
  | nested (source target : Text)
  | patched (name : Text) (prog : Prog) (patch : Text)
  deriving DecidableEq, Repr

structure State where
  /-- The directories of `PKG_DIR`. -/
  dirs : List Text
  /-- Directories that an `mv` put inside a package directory. -/
  nested : List (Text × Text)
  /-- The names `N` for which `.extract_N_done` exists. -/
  markers : List Text
  /-- `_prog` of the running invocation. -/
  prog : Option Prog
  exited : Bool
  history : List Deed

/-- An empty `PKG_DIR` and no invocation under way. -/
def initial : State := ⟨[], [], [], none, true, []⟩

/-! ## The checksum gate -/

def suffix : Text := ".tar.gz".toList

/-- `basename $tgz .tar.gz` of a word without slashes. -/
def basename (tgz : Text) : Text :=
  if suffix.isSuffixOf tgz ∧ tgz ≠ suffix then tgz.take (tgz.length - suffix.length) else tgz

/-- Words that mean themselves wherever the script puts them unquoted. -/
def plainChar (c : Char) : Bool := Atom.word.accepts c || c == '.' || c == '-'

def plain (tgz : Text) : Bool := tgz ≠ [] && tgz.head? ≠ some '-' && tgz.all plainChar

/-- A file name used as a basic regular expression. -/
def grepPattern (tgz : Text) : Pattern := tgz.map fun c => .one (if c = '.' then .dot else .lit c)

/-- `grep $tgz ../distinfo` -/
def grep (distinfo tgz : Text) : List Text :=
  ((readLines distinfo).map chomp).filter (search (grepPattern tgz))

/-- `awk '{print $4}'` on one line. -/
def fourth (line : Text) : Text := (fields isBlank line).getD 3 []

/-- A command substitution loses the newlines at its end. -/
def substituted (output : Text) : Text := output.rdropWhile (· = '\n')

def checksum0 (distinfo tgz : Text) : Text :=
  substituted ((grep distinfo tgz).flatMap fun line => fourth line ++ ['\n'])

def checksum1 (t : Tarball) : Text :=
  substituted (t.digest.elim [] fun d => d ++ ['\n'])

def gate (distinfo : Text) (t : Tarball) : Bool := checksum0 distinfo t.tgz = checksum1 t

/-! ## Unpacking, renaming, patching -/

/-- What the glob `prog*` stands for. -/
def candidates (p : Prog) (dirs : List Text) : List Text := dirs.filter p.text.isPrefixOf

def present (dirs : List Text) (p : Prog) : Bool := p.text ∈ dirs

/-- `eval tar zxf $f` -/
def tar (t : Tarball) (s : State) : State :=
  { s with
    dirs := s.dirs ++ t.tops.filter (· ∉ s.dirs)
    history := .unpacked t.tgz t.tops t.complete :: s.history }

/-- `mv` of one directory into a package directory; it fails when one of that
name is there already. -/
def moveInto (p : Prog) (s : State) (source : Text) : State :=
  if source = p.text ∨ (source, p.text) ∈ s.nested then s
  else { s with
    dirs := s.dirs.filter (· ≠ source)
    nested := (source, p.text) :: s.nested
    history := .nested source p.text :: s.history }

/-- `RENAME $name $prog`. The `mv` succeeds when the glob stands for a single
directory of another name; it then takes the package's name. Otherwise the
script exits, after moving what can be moved when the package directory exists. -/
def rename (name : Text) (p : Prog) (s : State) : State :=
  if p.text.isPrefixOf name then
    match candidates p s.dirs with
    | [] => { s with exited := true }
    | [source] =>
      if source = p.text then { s with exited := true }
      else { s with
        dirs := s.dirs.map fun dir => if dir = source then p.text else dir
        history := .moved source p.text :: s.history }
    | sources =>
      let s := if p.text ∈ s.dirs then sources.foldl (moveInto p) s else s
      { s with exited := true }
  else s

/-- The inner loop for one package. -/
def visit (name : Text) (s : State) (p : Prog) : State :=
  if s.exited then s
  else
    let s := rename name p s
    if s.exited ∨ p.text ∉ s.dirs then s
    else { s with prog := some p, markers := s.markers.insert name }

/-- The patches go where `_prog` points. Without one the shell changes to the
home directory and finds no patch file. -/
def patch (name : Text) (s : State) : State :=
  match s.prog with
  | none => s
  | some p => { s with history := ((patchSet p).map (.patched name p)).reverse ++ s.history }

/-- The body of the outer loop behind the checksum gate. -/
def unpack (t : Tarball) (s : State) : State :=
  let name := basename t.tgz
  let s := Prog.all.foldl (visit name) (tar t { s with history := .checked t.tgz t.digest :: s.history })
  if s.exited then s else patch name s

/-- One tarball. What the shell makes of a word that is not plain is `other`. -/
def extract (other : Tarball → State → State) (distinfo : Text) (t : Tarball) (s : State) : State :=
  if !plain t.tgz then other t s
  else if basename t.tgz ∈ s.markers then s
  else if gate distinfo t then unpack t s
  else { s with exited := true }

/-! ## Invocations -/

inductive Event where
  /-- `extract.sh` is started. -/
  | invoke
  /-- The next argument; ignored once the script has exited. -/
  | tarball (t : Tarball)

def step (other : Tarball → State → State) (distinfo : Text) (s : State) : Event → Option State
  | .invoke => some { s with prog := none, exited := false }
  | .tarball t => some (if s.exited then s else extract other distinfo t s)

end Fdgw.Extract
