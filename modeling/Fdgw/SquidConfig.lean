import Fdgw.FirstMatch
import Fdgw.TextLines

/-!
`src/etc/squid/convert.pl`: the rewrite of squid's example configuration, and
what squid reads in a configuration file: its access lists and the order of its
`http_access` rules.
-/
namespace Fdgw.SquidConfig
open Patterns TextLines

/-! ## The rewrite -/

/-- `$allow` -/
def allow : Text :=
  "\nhttp_access allow manager localhost\nhttp_access allow local\nhttp_access allow localhost\n".toList

/-- `$localnet` -/
def localnet : Text :=
  "\nacl local src 10.0.0.0/255.0.0.0 172.16.0.0/255.248.0.0 192.168.0.0/255.255.0.0\n".toList

/-- `^\# name.*` -/
def commented (name : Text) : Pattern := literally ("# ".toList ++ name) ++ [.many .dot]

/-- The substitutions that put a setting in place of a commented default, in the
order of the script. -/
def settings : List (Pattern × Text) :=
  [(commented "mime_table".toList, "mime_table /usr/pkg/etc/squid/mime.conf".toList),
   (commented "cache_dir".toList, "cache_dir ufs /var/squid/cache 1 2 2".toList),
   (commented "cache_mem".toList, "cache_mem 1 MB".toList),
   (commented "cache_swap_high".toList, "cache_swap_high 50".toList),
   (commented "cache_swap_low".toList, "cache_swap_low  30".toList),
   (commented "http_port".toList, "http_port 127.0.0.1:3128".toList),
   ([.one (.lit '#'), .many .dot] ++ literally ": httpd_accel_host".toList ++ [.many .dot],
     "httpd_accel_host virtual".toList),
   (commented "httpd_accel_port".toList, "httpd_accel_port 80".toList),
   (commented "httpd_accel_uses_host_header".toList, "httpd_accel_uses_host_header on".toList),
   (commented "httpd_accel_with_proxy".toList, "httpd_accel_with_proxy on".toList),
   (commented "maximum_object_size".toList, "maximum_object_size 1 KB".toList),
   (commented "icon_directory".toList, "icon_directory /usr/pkg/share/squid/icons".toList),
   (commented "error_directory".toList, "error_directory /usr/pkg/share/squid/errors".toList)]

def applySetting (line : Text) (entry : Pattern × Text) : Text := substitute entry.1 entry.2 line

/-- `s!^(pattern)!$1text!` -/
def insertAfter (pattern : Pattern) (text line : Text) : Text :=
  match matchPrefix pattern line with
  | some rest => line.take (line.length - rest.length) ++ text ++ rest
  | none => line

def aclLocalhost : Text := "acl localhost".toList
def aclLocal : Text := "acl local src".toList
def allowManager : Text := "http_access allow manager localhost".toList

/-- The body of the loop up to the last `print`. -/
def convertLine (line : Text) : Text :=
  let line := settings.foldl applySetting line
  let line := insertAfter (literally aclLocalhost ++ [.many .dot]) ('\n' :: localnet) line
  let line := substitute (literally aclLocal ++ [.many .dot]) localnet line
  substitute (literally allowManager) allow line

/-- What `convert.pl` prints. -/
def convert (source : Text) : Text := ((readLines source).map convertLine).flatten

/-! ## What squid reads -/

/-- `[!]aclname` -/
structure Term where
  negated : Bool
  name : Text
  deriving DecidableEq, Repr

structure Rule where
  allow : Bool
  terms : List Term
  deriving DecidableEq, Repr

structure Acl where
  name : Text
  kind : Text
  values : List Text
  deriving DecidableEq, Repr

inductive Directive where
  | acl (acl : Acl)
  | access (rule : Rule)
  deriving DecidableEq, Repr

def separates (c : Char) : Bool := c ∈ [' ', '\t', '\n', '\r']

/-- The words of a line up to a comment. -/
def tokens (line : Text) : List Text :=
  (fields separates line).takeWhile fun word => word.head? ≠ some '#'

def readTerm : Text → Term
  | '!' :: name => ⟨true, name⟩
  | name => ⟨false, name⟩

/-- The access control in a line, if there is any. -/
def readLine (line : Text) : Option Directive :=
  match tokens line with
  | directive :: first :: second :: rest =>
    if directive = "acl".toList then some (.acl ⟨first, second, rest⟩)
    else if directive = "http_access".toList then
      if first = "allow".toList then some (.access ⟨true, (second :: rest).map readTerm⟩)
      else if first = "deny".toList then some (.access ⟨false, (second :: rest).map readTerm⟩)
      else none
    else none
  | _ => none

def directives (text : Text) : List Directive := (text.splitOn '\n').filterMap readLine

def Directive.asAcl : Directive → Option Acl
  | .acl list => some list
  | .access _ => none

def Directive.asRule : Directive → Option Rule
  | .acl _ => none
  | .access rule => some rule

def acls (text : Text) : List Acl := (directives text).filterMap Directive.asAcl

def rules (text : Text) : List Rule := (directives text).filterMap Directive.asRule

/-! ## Requests -/

structure Request where
  client : BitVec 32
  method : Text
  proto : Text
  port : Nat

def decimal (text : Text) : Option Nat :=
  if text ≠ [] ∧ text.all Char.isDigit then
    some (text.foldl (fun n c => 10 * n + (c.toNat - '0'.toNat)) 0)
  else none

def address (text : Text) : Option (BitVec 32) :=
  match (text.splitOn '.').mapM decimal with
  | some [a, b, c, d] =>
    if a < 256 ∧ b < 256 ∧ c < 256 ∧ d < 256 then
      some (BitVec.ofNat 32 (((a * 256 + b) * 256 + c) * 256 + d))
    else none
  | _ => none

/-- An address with its mask; a bare address stands for itself. -/
def network (text : Text) : Option (BitVec 32 × BitVec 32) :=
  match text.splitOn '/' with
  | [addr] => (address addr).map fun a => (a, BitVec.allOnes 32)
  | [addr, mask] => do
    let a ← address addr
    let m ← address mask
    some (a, m)
  | _ => none

def contains (net : BitVec 32 × BitVec 32) (client : BitVec 32) : Bool :=
  client &&& net.2 = net.1 &&& net.2

/-- A port or a range of ports. -/
def portMatches (text : Text) (port : Nat) : Option Bool :=
  match (text.splitOn '-').mapM decimal with
  | some [single] => some (port = single)
  | some [low, high] => some (low ≤ port ∧ port ≤ high)
  | _ => none

/-- One value of an access list against a request. Types and values beyond these
(host names, address ranges, times, …) are left to `outside`. -/
def valueMatches (outside : Text → Text → Request → Bool) (kind value : Text) (r : Request) : Bool :=
  if kind = "src".toList then
    match network value with
    | some net => contains net r.client
    | none => outside kind value r
  else if kind = "port".toList then (portMatches value r.port).getD (outside kind value r)
  else if kind = "proto".toList then value = r.proto
  else if kind = "method".toList then value = r.method
  else outside kind value r

/-- The lines of one name are alternatives, and so are the values of a line. -/
def aclMatches (outside : Text → Text → Request → Bool) (lists : List Acl) (r : Request)
    (name : Text) : Bool :=
  lists.any fun acl => acl.name = name && acl.values.any fun value => valueMatches outside acl.kind value r

/-- All acls of the rule match. -/
def Rule.applies (outside : Text → Text → Request → Bool) (lists : List Acl) (r : Request)
    (rule : Rule) : Bool :=
  rule.terms.all fun term => aclMatches outside lists r term.name != term.negated

/-- Whether a configuration lets a request through. -/
def permits (outside : Text → Text → Request → Bool) (text : Text) (r : Request) : Bool :=
  FirstMatch.verdict Rule.allow (Rule.applies outside (acls text) r) (rules text)

end Fdgw.SquidConfig
