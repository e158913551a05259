import Fdgw.Runs

/-!
The TCP half of `src/gnu/stone/stone.c` as the proxy image builds it
(`cc -DUSE_IPF`: no SSL, no POP, no threads, timer on), with the destination
lookup of `src/lib/libtransparent/ipfilter.c`.

Every connection accepted by a listener passes through three records: the
listener's own `Stone`, whose `sin` the transparent mode overwrites; a `Conn`
into which `reqconn` copies that address; and the `connect` calls `asyncConn`
makes with the copy. Control is a stack of frames, innermost first, because the
`SIGALRM` handler calls `repeater` again inside the call it interrupts. The
handler runs only while the interval timer is armed, so `utimer` is part of the
state. Which ready descriptor or queued request a scan visits next is left to
the events, as are the answers of the system calls.

`trace` is a history variable: what was looked up, queued, refused and dialled,
newest first. No step reads it.
-/
namespace Fdgw.Repeater

/-- `struct sockaddr_in`, address and port in network order. -/
structure SockaddrIn where
  sinFamily : Nat
  sinAddr : BitVec 32
  sinPort : BitVec 16
  deriving DecidableEq, Repr

/-! ## libtransparent -/

/-- The fields of `natlookup_t` the library fills or reads. -/
structure Natlookup where
  nlInip : BitVec 32 := 0
  nlOutip : BitVec 32 := 0
  nlRealip : BitVec 32 := 0
  nlInport : BitVec 16 := 0
  nlOutport : BitVec 16 := 0
  nlRealport : BitVec 16 := 0
  deriving DecidableEq, Repr

/-- What the kernel answers to the four calls of one lookup. `ioctl` sees the
request and fills the real address and port on success only. -/
structure Kernel where
  getsockname : Option SockaddrIn
  getpeername : Option SockaddrIn
  openNat : Bool
  ioctl : Natlookup → Option (BitVec 32 × BitVec 16)

/-- `get_realdst`: status and the filled lookup record. -/
def getRealdst (kernel : Kernel) (np : Natlookup) : Bool × Natlookup :=
  match kernel.getsockname, kernel.getpeername with
  | some laddr, some faddr =>
    let np := { np with
      nlInport := laddr.sinPort, nlOutport := faddr.sinPort
      nlInip := laddr.sinAddr, nlOutip := faddr.sinAddr }
    if kernel.openNat then
      match kernel.ioctl np with
      | some (ip, port) => (true, { np with nlRealip := ip, nlRealport := port })
      | none => (false, np)
    else (false, np)
  | _, _ => (false, np)

/-- `ipfilter_get_real_dst`: the destination is rewritten on success only. -/
def ipfilterGetRealDst (kernel : Kernel) (dst : SockaddrIn) : Bool × SockaddrIn :=
  match getRealdst kernel {} with
  | (true, np) => (true, { dst with sinAddr := np.nlRealip, sinPort := np.nlRealport })
  | (false, _) => (false, dst)

/-- The address and port a lookup obtains, if it succeeds. -/
def realDst (kernel : Kernel) : Option (BitVec 32 × BitVec 16) :=
  match getRealdst kernel {} with
  | (true, np) => some (np.nlRealip, np.nlRealport)
  | (false, _) => none

/-- The library's effect on a destination is exactly its looked-up address. -/
theorem ipfilter_get_real_dst_eq (kernel : Kernel) (dst : SockaddrIn) :
    ipfilterGetRealDst kernel dst = match realDst kernel with
      | some (ip, port) => (true, { dst with sinAddr := ip, sinPort := port })
      | none => (false, dst) := by
  unfold ipfilterGetRealDst realDst
  rcases getRealdst kernel {} with ⟨status, np⟩
  cases status <;> rfl

/-! ## Listeners -/

/-- The `proto_command` bits. -/
inductive Command where
  | none
  | proxy
  | ihead
  | pop
  deriving DecidableEq, Repr

structure XHost where
  addr : BitVec 32
  mask : BitVec 32
  deriving DecidableEq, Repr

structure Stone where
  sin : SockaddrIn
  udp : Bool
  command : Command
  xhosts : List XHost
  deriving DecidableEq, Repr

/-- The arguments of one `mkstone` call, host names resolved by `host2addr`. -/
structure Listener where
  family : Nat
  dhost : BitVec 32
  dport : BitVec 16
  udp : Bool
  command : Command
  xhosts : List XHost
  deriving DecidableEq, Repr

/-- The destination `mkstone` configures; a proxy keeps the zeroed record. -/
def Listener.destination (l : Listener) : SockaddrIn :=
  if l.command = .proxy then ⟨0, 0, 0⟩ else ⟨l.family, l.dhost, l.dport⟩

def mkstone (l : Listener) : Stone :=
  { sin := l.destination, udp := l.udp, command := l.command, xhosts := l.xhosts }

/-- `checkXhost` as built without `USE_LIBWRAP`. -/
def checkXhost (stone : Stone) (addr : BitVec 32) : Bool :=
  stone.xhosts.isEmpty || stone.xhosts.any fun x => addr &&& x.mask == x.addr &&& x.mask

/-! ## State -/

/-- The two linked `Pair` records of one accepted connection. `watched` says
their descriptors are in the select sets; the two flags are `proto_close`. -/
structure Pair where
  stone : Nat
  command : Command
  clock : Nat
  watched : Bool
  srcClose : Bool
  dstClose : Bool
  deriving DecidableEq, Repr

/-- A queued connection request; `id` stands for its address in memory. -/
structure Conn where
  id : Nat
  sin : SockaddrIn
  pair : Option Nat
  lock : Int
  deriving DecidableEq, Repr

/-- What `connect` reported to `doconnect`. -/
inductive ConnectResult where
  | established
  | eintr
  | isconn
  | failed
  deriving DecidableEq, Repr

/-- The three parts of one `repeater` pass. -/
inductive Phase where
  | select
  | stones
  | conns
  deriving DecidableEq, Repr

/-- Where an activation stands. `accepted` and `looked` are the two points of
`asyncAccept` after `doaccept` has returned; `handler` keeps the `cnt` saved
around a recursive `repeater`. -/
inductive Frame where
  | repeater (phase : Phase)
  | doaccept (stone : Nat)
  | accepted (stone pair : Nat)
  | looked (stone pair : Nat)
  | doconnect (conn pair clock : Nat)
  | connecting (conn pair clock : Nat) (ret : ConnectResult)
  | io
  | handler (cnt : Nat)
  deriving DecidableEq, Repr

/-- One history entry. A `connect` through a record that is no longer queued
has no target. -/
inductive Obs where
  | lookup (stone pair : Nat) (result : Option (BitVec 32 × BitVec 16))
  | queued (pair : Nat) (sin : SockaddrIn)
  | refused (pair : Nat)
  | connect (pair : Nat) (target : Option SockaddrIn)
  deriving DecidableEq, Repr

structure State where
  transparentMode : Bool
  stones : List Stone
  pairs : List Pair
  conns : List Conn
  nextConn : Nat
  timer : Bool
  generation : Nat
  seen : Nat
  cnt : Nat
  recursion : Nat
  stack : List Frame
  trace : List Obs
  deriving DecidableEq, Repr

/-- `RECURS_CNT`, `RECURS_MAX` and `CONN_TIMEOUT`. -/
def recursCnt : Nat := 30
def recursMax : Nat := 10
def connTimeout : Nat := 60

/-- After `initialize`, before the first `repeater`. -/
def initial (transparentMode : Bool) (listeners : List Listener) : State where
  transparentMode := transparentMode
  stones := listeners.map mkstone
  pairs := []
  conns := []
  nextConn := 0
  timer := false
  generation := 0
  seen := 0
  cnt := 0
  recursion := 0
  stack := [.repeater .select]
  trace := []

/-! ## Steps -/

/-- `repeater` returns from `select` and counts a generation. -/
def select (s : State) : Option State :=
  match s.stack with
  | .repeater .select :: rest =>
    some { s with generation := s.generation + 1, stack := .repeater .stones :: rest }
  | _ => none

/-- `scanStones` finds a readable TCP listener: `asyncAccept` arms the timer
and enters `doaccept`. -/
def readable (s : State) (stone : Nat) : Option State :=
  match s.stack, s.stones[stone]? with
  | .repeater .stones :: _, some record =>
    if record.udp then none
    else some { s with timer := true, stack := .doaccept stone :: s.stack }
  | _, _ => none

/-- The system's part of `doaccept`: the peer if `accept` succeeded, whether
the two `Pair` allocations and `socket` succeeded, and the time. -/
structure AcceptCall where
  peer : Option (BitVec 32)
  memory : Bool
  socket : Bool
  now : Nat

/-- `doaccept` returns a linked pair or `NULL`, and the timer stops. -/
def doaccept (s : State) (call : AcceptCall) : Option State :=
  match s.stack with
  | .doaccept stone :: rest =>
    match s.stones[stone]?, call.peer with
    | some record, some peer =>
      if checkXhost record peer && call.memory && call.socket then
        some { s with
          timer := false
          pairs := s.pairs ++ [⟨stone, record.command, call.now, false, false, false⟩]
          stack := .accepted stone s.pairs.length :: rest }
      else some { s with timer := false, stack := rest }
    | _, _ => some { s with timer := false, stack := rest }
  | _ => none

/-- The `USE_IPF` block of `asyncAccept`: the listener's record is overwritten
and the status is dropped. -/
def lookup (s : State) (kernel : Kernel) : Option State :=
  match s.stack with
  | .accepted stone pair :: rest =>
    if s.transparentMode then
      some { s with
        stones := s.stones.modify stone fun record =>
          { record with sin := (ipfilterGetRealDst kernel record.sin).2 }
        stack := .looked stone pair :: rest
        trace := .lookup stone pair (realDst kernel) :: s.trace }
    else some { s with stack := .looked stone pair :: rest }
  | _ => none

/-- `reqconn`, for the destination half of `pair`: a proxy waits for its
request header, an ordinary pair is queued if `malloc` succeeds. -/
def reqconn (s : State) (pair : Nat) (sin : SockaddrIn) (memory : Bool) (now : Nat) :
    Bool × State :=
  match s.pairs[pair]? with
  | none => (false, s)
  | some record =>
    if record.command = .proxy then
      (true, { s with pairs := s.pairs.modify pair fun p => { p with watched := true } })
    else if memory then
      (true, { s with
        pairs := s.pairs.modify pair fun p => { p with clock := now }
        conns := ⟨s.nextConn, sin, some pair, 0⟩ :: s.conns
        nextConn := s.nextConn + 1
        trace := .queued pair sin :: s.trace })
    else (false, s)

/-- The rest of `asyncAccept`: queue the request with the listener's current
destination, or close both sockets. -/
def request (s : State) (memory : Bool) (now : Nat) : Option State :=
  match s.stack with
  | .looked stone pair :: rest =>
    match s.stones[stone]? with
    | none => none
    | some record =>
      match reqconn { s with stack := rest } pair record.sin memory now with
      | (true, next) => some next
      | (false, next) => some { next with
          pairs := next.pairs.modify pair fun p => { p with srcClose := true, dstClose := true }
          trace := .refused pair :: next.trace }
  | _ => none

/-- `asyncRead`, `asyncWrite`, `asyncUDP` and `asyncOrg` arm the timer around
their system call. -/
def beginIo (s : State) : Option State :=
  match s.stack with
  | .repeater .stones :: _ => some { s with timer := true, stack := .io :: s.stack }
  | _ => none

/-- The call ends; `doclose` marks the sides it found finished, all of them
sides of watched pairs. -/
def endIo (s : State) (closed : List (Nat × Bool)) : Option State :=
  match s.stack with
  | .io :: rest =>
    if closed.all fun c => (s.pairs[c.1]?).any Pair.watched then
      some { s with
        timer := false
        stack := rest
        pairs := closed.foldl (fun pairs c => pairs.modify c.1 fun p =>
          if c.2 then { p with srcClose := true } else { p with dstClose := true }) s.pairs }
    else none
  | _ => none

/-- `doproxy`, reached from `asyncRead` on a proxy pair whose request header has
arrived: the command bits are cleared and the named host is queued. -/
def doproxy (s : State) (pair : Nat) (sin : SockaddrIn) (memory : Bool) (now : Nat) :
    Option State :=
  match s.stack, s.pairs[pair]? with
  | .repeater .stones :: _, some record =>
    if record.command = .proxy ∧ record.watched then
      some (reqconn { s with pairs := s.pairs.modify pair fun p => { p with command := .none } }
        pair sin memory now).2
    else none
  | _, _ => none

/-- `repeater` goes on to `scanConns`. -/
def scanConns (s : State) : Option State :=
  match s.stack with
  | .repeater .stones :: rest => some { s with stack := .repeater .conns :: rest }
  | _ => none

/-- Neither half of the pair is gone or closing, the test of `scanConns`. -/
def alive (s : State) (pair : Nat) : Bool :=
  (s.pairs[pair]?).any fun p => !p.srcClose && !p.dstClose

def updateConn (conns : List Conn) (id : Nat) (f : Conn → Conn) : List Conn :=
  conns.map fun c => if c.id = id then f c else c

def findConn (conns : List Conn) (id : Nat) : Option Conn := conns.find? fun c => c.id = id

/-- `scanConns` locks an idle request and calls `asyncConn`, which arms the
timer and enters `doconnect`. -/
def asyncConn (s : State) (id now : Nat) : Option State :=
  match s.stack, findConn s.conns id with
  | .repeater .conns :: _, some conn =>
    match conn.pair with
    | some pair =>
      if alive s pair && conn.lock == 0 then
        some { s with
          conns := updateConn s.conns id fun c => { c with lock := 1 }
          timer := true
          stack := .doconnect id pair now :: s.stack }
      else none
    | none => none
  | _, _ => none

/-- The `connect` call of `doconnect`, through the pointer into the request. -/
def connect (s : State) (ret : ConnectResult) : Option State :=
  match s.stack with
  | .doconnect id pair clock :: rest => some { s with
      stack := .connecting id pair clock ret :: rest
      trace := .connect pair ((findConn s.conns id).map Conn.sin) :: s.trace }
  | _ => none

/-- What `doconnect` returns once `connect` has answered. -/
def doconnectReturn (s : State) (pair : Nat) (ret : ConnectResult) : Int :=
  if (s.pairs[pair]?).any Pair.dstClose then -1
  else match ret with
    | .established => 1
    | .eintr => 0
    | .isconn => 1
    | .failed => -1

/-- The end of `asyncConn`: an interrupted attempt is unlocked for a retry until
it times out; a failure closes both halves; a success watches them. -/
def finishConn (s : State) : Option State :=
  match s.stack with
  | .connecting id pair clock ret :: rest =>
    let value := doconnectReturn s pair ret
    let started := (s.pairs[pair]?).elim 0 Pair.clock
    if value = 0 ∧ clock - started < connTimeout then
      some { s with
        timer := false
        stack := rest
        conns := updateConn s.conns id fun c => { c with lock := 0 } }
    else
      let pairs := if value ≤ 0 ∨ ¬ alive s pair then
          s.pairs.modify pair fun p => { p with srcClose := true, dstClose := true }
        else s.pairs.modify pair fun p => { p with watched := true }
      some { s with
        timer := false
        stack := rest
        pairs := pairs
        conns := updateConn s.conns id fun c => { c with pair := none, lock := -1 } }
  | _ => none

/-- `scanConns` unlinks and frees a request whose pair is gone or closing. -/
def removeConn (s : State) (id : Nat) : Option State :=
  match s.stack, findConn s.conns id with
  | .repeater .conns :: _, some conn =>
    if conn.pair.any (alive s) then none
    else some { s with conns := s.conns.filter fun c => c.id ≠ id }
  | _, _ => none

/-- `repeater` returns, to `main`'s loop or to the handler that called it. -/
def done (s : State) : Option State :=
  match s.stack with
  | .repeater .conns :: .handler saved :: rest => some { s with
      recursion := s.recursion - 1
      cnt := saved
      seen := s.generation
      timer := true
      stack := rest }
  | [.repeater .conns] => some { s with stack := [.repeater .select] }
  | _ => none

/-- The `SIGALRM` case of `handler`, possible only while the timer is armed. -/
def sigalrm (s : State) : Option State :=
  if s.timer then
    if s.generation = s.seen ∧ s.recursion < recursMax then
      let cnt := if s.cnt < recursCnt then s.cnt + 1 else s.cnt
      if recursCnt ≤ cnt then
        some { s with
          timer := false
          cnt := 0
          recursion := s.recursion + 1
          stack := .repeater .select :: .handler cnt :: s.stack }
      else some { s with cnt := cnt, seen := s.generation }
    else some { s with cnt := 0, seen := s.generation }
  else none

inductive Event where
  | select
  | readable (stone : Nat)
  | accept (call : AcceptCall)
  | lookup (kernel : Kernel)
  | request (memory : Bool) (now : Nat)
  | beginIo
  | endIo (closed : List (Nat × Bool))
  | doproxy (pair : Nat) (sin : SockaddrIn) (memory : Bool) (now : Nat)
  | scanConns
  | asyncConn (id now : Nat)
  | connect (ret : ConnectResult)
  | finishConn
  | removeConn (id : Nat)
  | done
  | sigalrm

def step (s : State) : Event → Option State
  | .select => select s
  | .readable stone => readable s stone
  | .accept call => doaccept s call
  | .lookup kernel => lookup s kernel
  | .request memory now => request s memory now
  | .beginIo => beginIo s
  | .endIo closed => endIo s closed
  | .doproxy pair sin memory now => doproxy s pair sin memory now
  | .scanConns => scanConns s
  | .asyncConn id now => asyncConn s id now
  | .connect ret => connect s ret
  | .finishConn => finishConn s
  | .removeConn id => removeConn s id
  | .done => done s
  | .sigalrm => sigalrm s

end Fdgw.Repeater
