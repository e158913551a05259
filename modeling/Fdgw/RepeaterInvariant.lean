import Mathlib.Data.List.Basic
import Fdgw.Repeater

/-! The invariant of the repeater over all runs and all nestings of its signal
handler: the handler never runs between a lookup and the copy of its result,
and a request stays queued, with its own pair open, while it is dialled. Each
step has its own lemma; `step_inv` and `run_inv` collect them. -/
namespace Fdgw.Repeater
open Runs

/-! ## The request list as a map -/

@[simp] theorem findConn_nil (id : Nat) : findConn [] id = none := rfl

@[simp] theorem findConn_cons (c : Conn) (conns : List Conn) (id : Nat) :
    findConn (c :: conns) id = if c.id = id then some c else findConn conns id := by
  by_cases same : c.id = id <;> simp [findConn, same]

theorem findConn_updateConn (conns : List Conn) (id other : Nat) (f : Conn → Conn)
    (keeps : ∀ c, (f c).id = c.id) :
    findConn (updateConn conns id f) other =
      if other = id then (findConn conns id).map f else findConn conns other := by
  induction conns with
  | nil => simp [updateConn]
  | cons c conns ih =>
    simp only [updateConn, List.map_cons, findConn_cons] at ih ⊢
    rw [ih]
    by_cases same : c.id = id
    · by_cases wanted : other = id
      · simp [same, wanted, keeps]
      · have differ : id ≠ other := fun h => wanted h.symm
        simp [same, wanted, keeps, differ]
    · by_cases wanted : other = id
      · simp [same, wanted]
      · simp [same, wanted]

theorem findConn_filter (conns : List Conn) (id other : Nat) :
    findConn (conns.filter fun c => c.id ≠ id) other =
      if other = id then none else findConn conns other := by
  induction conns with
  | nil => simp
  | cons c conns ih =>
    by_cases same : c.id = id
    · rw [List.filter_cons_of_neg (by simp [same]), ih, findConn_cons]
      by_cases wanted : other = id
      · simp [wanted]
      · have differ : id ≠ other := fun h => wanted h.symm
        simp [same, wanted, differ]
    · rw [List.filter_cons_of_pos (by simp [same]), findConn_cons, ih, findConn_cons]
      by_cases wanted : other = id
      · simp [same, wanted]
      · simp [wanted]

/-! ## The invariant -/

/-- The calls the code wraps in `utimer(TICK_TIMER)` and `utimer(0)`. -/
def Frame.timed : Frame → Bool
  | .doaccept _ | .doconnect .. | .connecting .. | .io => true
  | _ => false

/-- Between the return of `doaccept` and the end of `asyncAccept`. -/
def Frame.critical : Frame → Bool
  | .accepted .. | .looked .. => true
  | _ => false

/-- The request and pair an `asyncConn` activation works on. -/
def Frame.dials : Frame → Option (Nat × Nat)
  | .doconnect id pair _ | .connecting id pair _ _ => some (id, pair)
  | _ => none

def Obs.pair : Obs → Nat
  | .lookup _ pair _ | .queued pair _ | .refused pair | .connect pair _ => pair

/-- `sin` agrees with whatever a lookup for `pair` obtained. -/
def Agrees (trace : List Obs) (pair : Nat) (sin : SockaddrIn) : Prop :=
  ∀ stone ip port, .lookup stone pair (some (ip, port)) ∈ trace →
    sin.sinAddr = ip ∧ sin.sinPort = port

/-- The pair is open and its descriptors are in no select set, so no scan can
close it. -/
def Pending (pairs : List Pair) (pair : Nat) : Prop :=
  ∃ record, pairs[pair]? = some record ∧ record.watched = false ∧
    record.srcClose = false ∧ record.dstClose = false

/-- No request for the pair is queued. -/
def Unqueued (conns : List Conn) (pair : Nat) : Prop :=
  ∀ id c, findConn conns id = some c → c.pair ≠ some pair

/-- A handler always stands on the timed call it interrupted. -/
def Handled : List Frame → Prop
  | [] => True
  | .handler _ :: rest => (∃ f below, rest = f :: below ∧ f.timed = true) ∧ Handled rest
  | _ :: rest => Handled rest

def Frame.isHandler : Frame → Bool
  | .handler _ => true
  | _ => false

theorem handled_rest (handled : Handled (f :: rest)) : Handled rest := by
  cases f <;> first | exact handled.2 | exact handled

theorem handled_push (handled : Handled rest) (plain : f.isHandler = false) :
    Handled (f :: rest) := by
  cases f <;> first | exact handled | cases plain

structure Inv (s : State) : Prop where
  timed : s.timer = true → ∃ f rest, s.stack = f :: rest ∧ f.timed = true
  critical : ∀ f ∈ s.stack.tail, f.critical = false
  handled : Handled s.stack
  fresh : ∀ stone pair rest, s.stack = .accepted stone pair :: rest →
    Pending s.pairs pair ∧ Unqueued s.conns pair ∧ ∀ o ∈ s.trace, o.pair ≠ pair
  ready : ∀ stone pair rest, s.stack = .looked stone pair :: rest →
    Pending s.pairs pair ∧ Unqueued s.conns pair ∧
      ∀ record, s.stones[stone]? = some record → Agrees s.trace pair record.sin
  bounded : ∀ o ∈ s.trace, o.pair < s.pairs.length
  queued : ∀ id c pair, findConn s.conns id = some c → c.pair = some pair →
    Pending s.pairs pair ∧ Agrees s.trace pair c.sin
  numbered : ∀ id c, findConn s.conns id = some c → id < s.nextConn
  single : ∀ id other c d pair, findConn s.conns id = some c → findConn s.conns other = some d →
    c.pair = some pair → d.pair = some pair → id = other
  dialling : ∀ f ∈ s.stack, ∀ id pair, f.dials = some (id, pair) →
    ∃ c, findConn s.conns id = some c ∧ c.pair = some pair ∧ c.lock = 1
  distinct : (s.stack.filterMap fun f => f.dials.map Prod.fst).Nodup
  plain : (∀ p ∈ s.pairs, p.command ≠ .proxy) ∧ ∀ r ∈ s.stones, r.command ≠ .proxy
  dialled : ∀ pair target, .connect pair target ∈ s.trace →
    ∃ sin, target = some sin ∧ Agrees s.trace pair sin

theorem initial_inv (mode : Bool) (listeners : List Listener)
    (plain : ∀ l ∈ listeners, l.command ≠ .proxy) : Inv (initial mode listeners) where
  timed := by simp [initial]
  critical := by simp [initial]
  handled := by simp [initial, Handled]
  fresh := by simp [initial]
  ready := by simp [initial]
  bounded := by simp [initial]
  queued := by simp [initial]
  numbered := by simp [initial]
  single := by simp [initial]
  dialling := by simp [initial, Frame.dials]
  distinct := by simp [initial, Frame.dials]
  plain := by simpa [initial, mkstone] using plain
  dialled := by simp [initial]

/-! ## Steps that only move control -/

/-- Moving control keeps the invariant when the new stack is innocent: an armed
timer has a timed call on top, no call is inside the critical part of
`asyncAccept`, and no new request is being dialled. -/
theorem control_inv (inv : Inv s) (timer : Bool) (generation seen cnt recursion : Nat)
    (stack : List Frame) (timed : timer = true → ∃ f rest, stack = f :: rest ∧ f.timed = true)
    (critical : ∀ f ∈ stack, f.critical = false) (handled : Handled stack)
    (dials : ∀ f ∈ stack, f.dials.isSome → f ∈ s.stack)
    (distinct : (stack.filterMap fun f => f.dials.map Prod.fst).Nodup) :
    Inv { s with timer, generation, seen, cnt, recursion, stack } where
  timed := timed
  critical := fun f member => critical f (List.mem_of_mem_tail member)
  handled := handled
  fresh := by
    rintro stone pair rest rfl
    simpa [Frame.critical] using critical _ List.mem_cons_self
  ready := by
    rintro stone pair rest rfl
    simpa [Frame.critical] using critical _ List.mem_cons_self
  bounded := inv.bounded
  queued := inv.queued
  numbered := inv.numbered
  single := inv.single
  dialling := fun f member id pair shape =>
    inv.dialling f (dials f member (by simp [shape])) id pair shape
  distinct := distinct
  plain := inv.plain
  dialled := inv.dialled

theorem rest_critical (inv : Inv s) (shape : s.stack = f :: rest) :
    ∀ g ∈ rest, g.critical = false := by
  intro g member
  exact inv.critical g (by simpa [shape] using member)

private theorem rest_distinct (inv : Inv s) (shape : s.stack = f :: rest) :
    (rest.filterMap fun g => g.dials.map Prod.fst).Nodup := by
  have all := inv.distinct
  rw [shape] at all
  exact all.sublist ((List.sublist_cons_self f rest).filterMap _)

/-- Replacing the innermost activation by one that neither dials nor stands in
the critical part. -/
private theorem replace_inv (inv : Inv s) (shape : s.stack = f :: rest) (g : Frame)
    (timer : Bool) (generation seen cnt recursion : Nat) (timed : timer = true → g.timed = true)
    (plain : g.critical = false ∧ g.isHandler = false) (quiet : g.dials = none) :
    Inv { s with timer, generation, seen, cnt, recursion, stack := g :: rest } := by
  refine control_inv inv timer generation seen cnt recursion (g :: rest) ?_ ?_ ?_ ?_ ?_
  · exact fun armed => ⟨g, rest, rfl, timed armed⟩
  · exact List.forall_mem_cons.mpr ⟨plain.1, rest_critical inv shape⟩
  · exact handled_push (handled_rest (shape ▸ inv.handled)) plain.2
  · intro h member dials
    rcases List.mem_cons.mp member with rfl | member
    · simp [quiet] at dials
    · exact shape ▸ List.mem_cons_of_mem f member
  · simpa [quiet] using rest_distinct inv shape

/-- Calling into such an activation. -/
private theorem push_inv (inv : Inv s) (shape : s.stack = f :: rest) (noncritical : f.critical = false)
    (g : Frame) (timer : Bool) (generation seen cnt recursion : Nat)
    (timed : timer = true → g.timed = true) (plain : g.critical = false ∧ g.isHandler = false)
    (quiet : g.dials = none) :
    Inv { s with timer, generation, seen, cnt, recursion, stack := g :: s.stack } := by
  refine control_inv inv timer generation seen cnt recursion (g :: s.stack) ?_ ?_ ?_ ?_ ?_
  · exact fun armed => ⟨g, s.stack, rfl, timed armed⟩
  · rw [shape]
    exact List.forall_mem_cons.mpr ⟨plain.1, List.forall_mem_cons.mpr
      ⟨noncritical, rest_critical inv shape⟩⟩
  · exact handled_push inv.handled plain.2
  · intro h member dials
    rcases List.mem_cons.mp member with rfl | member
    · simp [quiet] at dials
    · exact member
  · simpa [quiet] using inv.distinct

/-- Returning from the innermost activation with the timer stopped. -/
private theorem pop_inv (inv : Inv s) (shape : s.stack = f :: rest) :
    Inv { s with timer := false, stack := rest } := by
  refine control_inv inv false s.generation s.seen s.cnt s.recursion rest (by simp)
    (rest_critical inv shape) (handled_rest (shape ▸ inv.handled)) ?_ (rest_distinct inv shape)
  intro h member _
  exact shape ▸ List.mem_cons_of_mem f member

theorem select_inv (inv : Inv s) (ran : select s = some t) : Inv t := by
  unfold select at ran
  split at ran
  · rename_i rest shape
    cases ran
    exact replace_inv inv shape _ s.timer _ s.seen s.cnt s.recursion
      (fun armed => by simpa [shape, Frame.timed] using inv.timed armed) ⟨rfl, rfl⟩ rfl
  · cases ran

theorem readable_inv (inv : Inv s) (ran : readable s stone = some t) : Inv t := by
  unfold readable at ran
  split at ran
  · rename_i rest record shape found
    split at ran
    · cases ran
    · cases ran
      exact push_inv inv shape rfl _ true s.generation s.seen s.cnt s.recursion
        (fun _ => rfl) ⟨rfl, rfl⟩ rfl
  · cases ran

theorem beginIo_inv (inv : Inv s) (ran : beginIo s = some t) : Inv t := by
  unfold beginIo at ran
  split at ran
  · rename_i rest shape
    cases ran
    exact push_inv inv shape rfl _ true s.generation s.seen s.cnt s.recursion
      (fun _ => rfl) ⟨rfl, rfl⟩ rfl
  · cases ran

theorem scanConns_inv (inv : Inv s) (ran : scanConns s = some t) : Inv t := by
  unfold scanConns at ran
  split at ran
  · rename_i rest shape
    cases ran
    exact replace_inv inv shape _ s.timer s.generation s.seen s.cnt s.recursion
      (fun armed => by simpa [shape, Frame.timed] using inv.timed armed) ⟨rfl, rfl⟩ rfl
  · cases ran

theorem done_inv (inv : Inv s) (ran : done s = some t) : Inv t := by
  unfold done at ran
  split at ran
  · rename_i saved rest shape
    cases ran
    have handled : Handled (.handler saved :: rest) := handled_rest (shape ▸ inv.handled)
    refine control_inv inv true s.generation s.generation saved (s.recursion - 1) rest
      (fun _ => handled.1) ?_ handled.2 ?_ ?_
    · intro f member
      exact rest_critical inv shape f (List.mem_cons_of_mem _ member)
    · intro f member _
      rw [shape]
      exact List.mem_cons_of_mem _ (List.mem_cons_of_mem _ member)
    · simpa [Frame.dials] using rest_distinct inv shape
  · rename_i shape
    cases ran
    exact replace_inv inv shape _ s.timer s.generation s.seen s.cnt s.recursion
      (fun armed => by simpa [shape, Frame.timed] using inv.timed armed) ⟨rfl, rfl⟩ rfl
  · cases ran

theorem sigalrm_inv (inv : Inv s) (ran : sigalrm s = some t) : Inv t := by
  unfold sigalrm at ran
  split at ran
  · rename_i armed
    obtain ⟨top, rest, shape, timed⟩ := inv.timed armed
    have critical : ∀ f ∈ s.stack, f.critical = false := by
      rw [shape]
      refine List.forall_mem_cons.mpr ⟨?_, rest_critical inv shape⟩
      cases top <;> simp_all [Frame.timed, Frame.critical]
    generalize (if s.cnt < recursCnt then s.cnt + 1 else s.cnt) = ticks at ran
    dsimp only at ran
    split at ran
    · split at ran
      · cases ran
        refine control_inv inv false _ _ _ _ _ (by simp) ?_ ⟨⟨top, rest, shape, timed⟩, inv.handled⟩ ?_ ?_
        · simpa [Frame.critical] using critical
        · intro f member dials
          rcases List.mem_cons.mp member with rfl | member
          · simp [Frame.dials] at dials
          · rcases List.mem_cons.mp member with rfl | member
            · simp [Frame.dials] at dials
            · exact member
        · simpa [Frame.dials] using inv.distinct
      · cases ran
        exact control_inv inv s.timer _ _ _ _ s.stack inv.timed critical inv.handled
          (fun _ member _ => member) inv.distinct
    · cases ran
      exact control_inv inv s.timer _ _ _ _ s.stack inv.timed critical inv.handled
        (fun _ member _ => member) inv.distinct
  · cases ran

/-! ## Steps that touch the records -/

theorem agrees_cons (other : ∀ stone ip port, o ≠ .lookup stone pair (some (ip, port))) :
    Agrees (o :: trace) pair sin ↔ Agrees trace pair sin := by
  constructor
  · intro agrees stone ip port member
    exact agrees stone ip port (List.mem_cons_of_mem o member)
  · intro agrees stone ip port member
    rcases List.mem_cons.mp member with same | member
    · exact absurd same.symm (other stone ip port)
    · exact agrees stone ip port member

theorem pending_lt (pending : Pending pairs pair) : pair < pairs.length := by
  obtain ⟨record, found, -⟩ := pending
  exact (List.getElem?_eq_some_iff.mp found).1

theorem pending_append (pending : Pending pairs pair) (extra : List Pair) :
    Pending (pairs ++ extra) pair := by
  have bound := pending_lt pending
  obtain ⟨record, found, open_⟩ := pending
  exact ⟨record, by rw [List.getElem?_append_left bound, found], open_⟩

theorem pending_modify_ne (pending : Pending pairs pair) (differ : pair ≠ other)
    (f : Pair → Pair) : Pending (pairs.modify other f) pair := by
  obtain ⟨record, found, open_⟩ := pending
  refine ⟨record, ?_, open_⟩
  rw [List.getElem?_modify, found]
  simp [Ne.symm differ]

theorem pending_clock (pending : Pending pairs pair) (other now : Nat) :
    Pending (pairs.modify other fun p => { p with clock := now }) pair := by
  by_cases same : pair = other
  · subst same
    obtain ⟨record, found, open_⟩ := pending
    exact ⟨{ record with clock := now }, by rw [List.getElem?_modify, found]; simp, open_⟩
  · exact pending_modify_ne pending same _

theorem pending_alive (pending : Pending s.pairs pair) : alive s pair = true := by
  obtain ⟨record, found, -, src, dst⟩ := pending
  simp [alive, found, src, dst]

private theorem plain_modify {pairs : List Pair} (plain : ∀ p ∈ pairs, p.command ≠ .proxy) (pair : Nat)
    (f : Pair → Pair) (keeps : ∀ p, (f p).command = p.command) :
    ∀ p ∈ pairs.modify pair f, p.command ≠ .proxy := by
  intro p member
  obtain ⟨index, found⟩ := List.mem_iff_getElem?.mp member
  rw [List.getElem?_modify] at found
  obtain ⟨record, stored, rfl⟩ := Option.map_eq_some_iff.mp found
  split
  · rw [keeps]
    exact plain record (List.mem_of_getElem? stored)
  · exact plain record (List.mem_of_getElem? stored)

theorem doaccept_inv (inv : Inv s) (ran : doaccept s call = some t) : Inv t := by
  unfold doaccept at ran
  split at ran
  · rename_i stone rest shape
    split at ran
    · rename_i record peer found _
      split at ran
      · cases ran
        exact {
          timed := by simp
          critical := rest_critical inv shape
          handled := handled_push (handled_rest (shape ▸ inv.handled)) rfl
          fresh := by
            intro stone' pair rest' top
            cases top
            refine ⟨⟨_, List.getElem?_concat_length, rfl, rfl, rfl⟩, ?_, ?_⟩
            · intro id c queued named
              exact absurd (pending_lt (inv.queued id c _ queued named).1) (Nat.lt_irrefl _)
            · intro o member
              exact Nat.ne_of_lt (inv.bounded o member)
          ready := by simp
          bounded := by
            intro o member
            simpa using Nat.lt_succ_of_lt (inv.bounded o member)
          queued := by
            intro id c pair queued named
            obtain ⟨pending, agrees⟩ := inv.queued id c pair queued named
            exact ⟨pending_append pending _, agrees⟩
          numbered := inv.numbered
          single := inv.single
          dialling := by
            intro f member id pair dials
            rcases List.mem_cons.mp member with rfl | member
            · simp [Frame.dials] at dials
            · exact inv.dialling f (shape ▸ List.mem_cons_of_mem _ member) id pair dials
          distinct := by simpa [Frame.dials] using rest_distinct inv shape
          plain := by
            refine ⟨?_, inv.plain.2⟩
            intro p member
            rcases List.mem_append.mp member with member | member
            · exact inv.plain.1 p member
            · cases List.mem_singleton.mp member
              exact inv.plain.2 record (List.mem_of_getElem? found)
          dialled := inv.dialled }
      · cases ran
        exact pop_inv inv shape
    · cases ran
      exact pop_inv inv shape
  · cases ran

private theorem swap_dialling (inv : Inv s) (shape : s.stack = f :: rest) (g : Frame)
    (quiet : g.dials = none) : ∀ h ∈ g :: rest, ∀ id pair, h.dials = some (id, pair) →
      ∃ c, findConn s.conns id = some c ∧ c.pair = some pair ∧ c.lock = 1 := by
  intro h member id pair dials
  rcases List.mem_cons.mp member with rfl | member
  · simp [quiet] at dials
  · exact inv.dialling h (shape ▸ List.mem_cons_of_mem _ member) id pair dials

/-- A lookup writes only the listener's record, and its own pair is not yet
named by any request or earlier event. -/
theorem lookup_inv (inv : Inv s) (ran : lookup s kernel = some t) : Inv t := by
  unfold lookup at ran
  split at ran
  · rename_i stone pair rest shape
    obtain ⟨pending, unqueued, unseen⟩ := inv.fresh stone pair rest shape
    split at ran
    · cases ran
      have elsewhere : ∀ other sin, other ≠ pair → Agrees s.trace other sin →
          Agrees (.lookup stone pair (realDst kernel) :: s.trace) other sin := by
        intro other sin differ agrees
        refine (agrees_cons ?_).mpr agrees
        intro stone' ip port same
        injection same with _ samePair _
        exact differ samePair.symm
      exact {
        timed := by
          intro armed
          simpa [shape, Frame.timed] using inv.timed armed
        critical := rest_critical inv shape
        handled := handled_push (handled_rest (shape ▸ inv.handled)) rfl
        fresh := by simp
        ready := by
          intro stone' pair' rest' top
          cases top
          refine ⟨pending, unqueued, ?_⟩
          intro record found stone' ip port member
          rw [List.getElem?_modify] at found
          obtain ⟨before, -, rfl⟩ := Option.map_eq_some_iff.mp found
          rcases List.mem_cons.mp member with same | member
          · injection same with _ _ result
            simp [ipfilter_get_real_dst_eq, ← result]
          · exact absurd rfl (unseen _ member)
        bounded := by
          intro o member
          rcases List.mem_cons.mp member with rfl | member
          · exact pending_lt pending
          · exact inv.bounded o member
        queued := by
          intro id c other queued named
          obtain ⟨open_, agrees⟩ := inv.queued id c other queued named
          exact ⟨open_, elsewhere other c.sin (fun same => unqueued id c queued (same ▸ named)) agrees⟩
        numbered := inv.numbered
        single := inv.single
        dialling := swap_dialling inv shape _ rfl
        distinct := by simpa [Frame.dials] using rest_distinct inv shape
        plain := by
          refine ⟨inv.plain.1, ?_⟩
          intro record member
          obtain ⟨index, found⟩ := List.mem_iff_getElem?.mp member
          rw [List.getElem?_modify] at found
          obtain ⟨before, stored, rfl⟩ := Option.map_eq_some_iff.mp found
          have kept := inv.plain.2 before (List.mem_of_getElem? stored)
          split <;> exact kept
        dialled := by
          intro other target member
          rcases List.mem_cons.mp member with same | member
          · cases same
          · obtain ⟨sin, shape, agrees⟩ := inv.dialled other target member
            exact ⟨sin, shape, elsewhere other sin (unseen _ member) agrees⟩ }
    · cases ran
      exact {
        timed := by
          intro armed
          simpa [shape, Frame.timed] using inv.timed armed
        critical := rest_critical inv shape
        handled := handled_push (handled_rest (shape ▸ inv.handled)) rfl
        fresh := by simp
        ready := by
          intro stone' pair' rest' top
          cases top
          refine ⟨pending, unqueued, ?_⟩
          intro record found stone' ip port member
          exact absurd rfl (unseen _ member)
        bounded := inv.bounded
        queued := inv.queued
        numbered := inv.numbered
        single := inv.single
        dialling := swap_dialling inv shape _ rfl
        distinct := by simpa [Frame.dials] using rest_distinct inv shape
        plain := inv.plain
        dialled := inv.dialled }
  · cases ran

private theorem no_critical_top {p : Prop} {stack : List Frame} (shape : stack = f :: rest)
    (critical : ∀ g ∈ stack, g.critical = false) (bad : f.critical = true) : p := by
  have plain := critical f (shape ▸ List.mem_cons_self)
  simp [plain] at bad

/-- `reqconn` copies the listener's record while nothing can interrupt. -/
theorem request_inv (inv : Inv s) (ran : request s memory now = some t) : Inv t := by
  unfold request at ran
  split at ran
  · rename_i stone pair rest shape
    obtain ⟨pending, unqueued, agrees⟩ := inv.ready stone pair rest shape
    split at ran
    · cases ran
    · rename_i record found
      have critical := rest_critical inv shape
      have handled : Handled rest := handled_rest (shape ▸ inv.handled)
      have unarmed : s.timer = true → ∃ f below, rest = f :: below ∧ f.timed = true := by
        intro armed
        simpa [shape, Frame.timed] using inv.timed armed
      have frames : ∀ f ∈ rest, f ∈ s.stack := by
        intro f member
        exact shape ▸ List.mem_cons_of_mem _ member
      obtain ⟨entry, stored, -⟩ := id pending
      have ordinary := inv.plain.1 entry (List.mem_of_getElem? stored)
      cases memory with
      | true =>
        simp only [reqconn, stored, if_neg ordinary, ↓reduceIte] at ran
        cases ran
        have quiet : ∀ other sin, Agrees s.trace other sin →
            Agrees (.queued pair record.sin :: s.trace) other sin := by
          intro other sin holds
          exact (agrees_cons (by simp)).mpr holds
        exact {
          timed := unarmed
          critical := fun f member => critical f (List.mem_of_mem_tail member)
          handled := handled
          fresh := fun _ _ _ top => no_critical_top top critical rfl
          ready := fun _ _ _ top => no_critical_top top critical rfl
          bounded := by
            intro o member
            rw [List.length_modify]
            rcases List.mem_cons.mp member with rfl | member
            · exact pending_lt pending
            · exact inv.bounded o member
          queued := by
            intro id c other found named
            rw [findConn_cons] at found
            split at found
            · cases found
              cases named
              exact ⟨pending_clock pending _ _, quiet _ _ (agrees record ‹_›)⟩
            · obtain ⟨open_, holds⟩ := inv.queued id c other found named
              exact ⟨pending_clock open_ _ _, quiet _ _ holds⟩
          numbered := by
            intro id c found
            rw [findConn_cons] at found
            split at found
            · rename_i same
              exact same ▸ Nat.lt_succ_self _
            · exact Nat.lt_succ_of_lt (inv.numbered id c found)
          single := by
            intro id other c d shared first second namedFirst namedSecond
            rw [findConn_cons] at first second
            split at first
            · rename_i here
              split at second
              · rename_i there
                exact here.symm.trans there
              · cases first
                cases namedFirst
                exact absurd namedSecond (unqueued other d second)
            · split at second
              · cases second
                cases namedSecond
                exact absurd namedFirst (unqueued id c first)
              · exact inv.single id other c d shared first second namedFirst namedSecond
          dialling := by
            intro f member id other dials
            obtain ⟨c, found, named, locked⟩ := inv.dialling f (frames f member) id other dials
            refine ⟨c, ?_, named, locked⟩
            have older := inv.numbered id c found
            rw [findConn_cons, if_neg (by simpa using Nat.ne_of_gt older)]
            exact found
          distinct := rest_distinct inv shape
          plain := ⟨plain_modify inv.plain.1 _ _ (fun _ => rfl), inv.plain.2⟩
          dialled := by
            intro other target member
            rcases List.mem_cons.mp member with same | member
            · cases same
            · obtain ⟨sin, shape, holds⟩ := inv.dialled other target member
              exact ⟨sin, shape, quiet _ _ holds⟩ }
      | false =>
        simp only [reqconn, stored, if_neg ordinary, Bool.false_eq_true, ↓reduceIte] at ran
        cases ran
        have quiet : ∀ other sin, Agrees s.trace other sin →
            Agrees (.refused pair :: s.trace) other sin := by
          intro other sin holds
          exact (agrees_cons (by simp)).mpr holds
        exact {
          timed := unarmed
          critical := fun f member => critical f (List.mem_of_mem_tail member)
          handled := handled
          fresh := fun _ _ _ top => no_critical_top top critical rfl
          ready := fun _ _ _ top => no_critical_top top critical rfl
          bounded := by
            intro o member
            rw [List.length_modify]
            rcases List.mem_cons.mp member with rfl | member
            · exact pending_lt pending
            · exact inv.bounded o member
          queued := by
            intro id c other found named
            obtain ⟨open_, holds⟩ := inv.queued id c other found named
            have differ : other ≠ pair := fun same => unqueued id c found (same ▸ named)
            exact ⟨pending_modify_ne open_ differ _, quiet _ _ holds⟩
          numbered := inv.numbered
          single := inv.single
          dialling := fun f member => inv.dialling f (frames f member)
          distinct := rest_distinct inv shape
          plain := ⟨plain_modify inv.plain.1 _ _ (fun _ => rfl), inv.plain.2⟩
          dialled := by
            intro other target member
            rcases List.mem_cons.mp member with same | member
            · cases same
            · obtain ⟨sin, shape, holds⟩ := inv.dialled other target member
              exact ⟨sin, shape, quiet _ _ holds⟩ }
  · cases ran

theorem doproxy_inv (inv : Inv s) (ran : doproxy s pair sin memory now = some t) : Inv t := by
  unfold doproxy at ran
  split at ran
  · rename_i record _ found
    split at ran
    · rename_i proxied
      exact absurd proxied.1 (inv.plain.1 record (List.mem_of_getElem? found))
    · cases ran
  · cases ran

/-- The pairs after `doclose` marked the sides in `closed`. -/
private def closeSides (pairs : List Pair) (closed : List (Nat × Bool)) : List Pair :=
  closed.foldl (fun pairs c => pairs.modify c.1 fun p =>
    if c.2 then { p with srcClose := true } else { p with dstClose := true }) pairs

private theorem closeSides_length (pairs : List Pair) (closed : List (Nat × Bool)) :
    (closeSides pairs closed).length = pairs.length := by
  induction closed generalizing pairs with
  | nil => rfl
  | cons c closed ih =>
    rw [closeSides, List.foldl_cons]
    exact (ih _).trans (List.length_modify ..)

private theorem closeSides_pending (closed : List (Nat × Bool)) (pending : Pending pairs pair)
    (others : ∀ c ∈ closed, pair ≠ c.1) : Pending (closeSides pairs closed) pair := by
  induction closed generalizing pairs with
  | nil => exact pending
  | cons c closed ih =>
    obtain ⟨here, rest⟩ := List.forall_mem_cons.mp others
    exact ih (pending_modify_ne pending here _) rest

private theorem closeSides_plain {pairs : List Pair} (closed : List (Nat × Bool))
    (plain : ∀ p ∈ pairs, p.command ≠ .proxy) :
    ∀ p ∈ closeSides pairs closed, p.command ≠ .proxy := by
  induction closed generalizing pairs with
  | nil => exact plain
  | cons c closed ih =>
    refine ih (plain_modify plain _ _ ?_)
    intro p
    split <;> rfl

/-- Input and output close watched pairs only, and a queued request belongs to
a pair no scan watches yet. -/
theorem endIo_inv (inv : Inv s) (ran : endIo s closed = some t) : Inv t := by
  unfold endIo at ran
  split at ran
  · rename_i rest shape
    split at ran
    · rename_i watched
      cases ran
      have critical := rest_critical inv shape
      have untouched : ∀ pair, Pending s.pairs pair → Pending (closeSides s.pairs closed) pair := by
        intro pair pending
        refine closeSides_pending closed pending ?_
        rintro c member rfl
        obtain ⟨record, found, unwatched, -⟩ := pending
        have seen := List.all_eq_true.mp watched c member
        simp [found, unwatched] at seen
      exact {
        timed := by simp
        critical := fun f member => critical f (List.mem_of_mem_tail member)
        handled := handled_rest (shape ▸ inv.handled)
        fresh := fun _ _ _ top => no_critical_top top critical rfl
        ready := fun _ _ _ top => no_critical_top top critical rfl
        bounded := by
          intro o member
          exact lt_of_lt_of_eq (inv.bounded o member) (closeSides_length _ _).symm
        queued := by
          intro id c pair found named
          obtain ⟨pending, agrees⟩ := inv.queued id c pair found named
          exact ⟨untouched pair pending, agrees⟩
        numbered := inv.numbered
        single := inv.single
        dialling := fun f member => inv.dialling f (shape ▸ List.mem_cons_of_mem _ member)
        distinct := rest_distinct inv shape
        plain := ⟨closeSides_plain closed inv.plain.1, inv.plain.2⟩
        dialled := inv.dialled }
    · cases ran
  · cases ran

/-- Every request of `new` is one of `old`, perhaps cut off from its pair. -/
def Narrower (new old : List Conn) : Prop :=
  ∀ id c, findConn new id = some c → ∃ before, findConn old id = some before ∧
    before.sin = c.sin ∧ ∀ pair, c.pair = some pair → before.pair = some pair

theorem narrower_update (conns : List Conn) (target : Nat) (f : Conn → Conn)
    (keeps : ∀ c, (f c).id = c.id ∧ (f c).sin = c.sin ∧
      ∀ pair, (f c).pair = some pair → c.pair = some pair) :
    Narrower (updateConn conns target f) conns := by
  intro id c found
  rw [findConn_updateConn conns target id f (fun c => (keeps c).1)] at found
  split at found
  · rename_i same
    obtain ⟨before, stored, rfl⟩ := Option.map_eq_some_iff.mp found
    exact ⟨before, same ▸ stored, (keeps before).2.1.symm, (keeps before).2.2⟩
  · exact ⟨c, found, rfl, fun _ named => named⟩

theorem narrower_filter (conns : List Conn) (target : Nat) :
    Narrower (conns.filter fun c => c.id ≠ target) conns := by
  intro id c found
  rw [findConn_filter] at found
  split at found
  · cases found
  · exact ⟨c, found, rfl, fun _ named => named⟩

private theorem narrower_numbered (inv : Inv s) (narrower : Narrower conns s.conns) :
    ∀ id c, findConn conns id = some c → id < s.nextConn := by
  intro id c found
  obtain ⟨before, stored, -⟩ := narrower id c found
  exact inv.numbered id before stored

private theorem narrower_single (inv : Inv s) (narrower : Narrower conns s.conns) :
    ∀ id other c d pair, findConn conns id = some c → findConn conns other = some d →
      c.pair = some pair → d.pair = some pair → id = other := by
  intro id other c d pair first second namedFirst namedSecond
  obtain ⟨c', first, -, cPair⟩ := narrower id c first
  obtain ⟨d', second, -, dPair⟩ := narrower other d second
  exact inv.single id other c' d' pair first second (cPair _ namedFirst) (dPair _ namedSecond)

private theorem narrower_queued (inv : Inv s) (narrower : Narrower conns s.conns) :
    ∀ id c pair, findConn conns id = some c → c.pair = some pair →
      Pending s.pairs pair ∧ Agrees s.trace pair c.sin := by
  intro id c pair found named
  obtain ⟨before, stored, sameSin, keeps⟩ := narrower id c found
  exact sameSin ▸ inv.queued id before pair stored (keeps pair named)

/-- A request is dialled only when no activation below holds its lock. -/
theorem asyncConn_inv (inv : Inv s) (ran : asyncConn s target now = some t) : Inv t := by
  unfold asyncConn at ran
  split at ran
  · rename_i rest conn shape found
    split at ran
    · rename_i pair named
      split at ran
      · rename_i idle
        cases ran
        have unlocked : conn.lock = 0 := by simpa using (Bool.and_eq_true_iff.mp idle).2
        have locks (other : Nat) := findConn_updateConn s.conns target other
          (fun c => { c with lock := 1 }) (fun _ => rfl)
        have narrower := narrower_update s.conns target (fun c => { c with lock := 1 })
          (fun _ => ⟨rfl, rfl, fun _ named => named⟩)
        have queued := narrower_queued inv narrower
        have numbered := narrower_numbered inv narrower
        have critical : ∀ f ∈ s.stack, f.critical = false := by
          rw [shape]
          exact List.forall_mem_cons.mpr ⟨rfl, rest_critical inv shape⟩
        exact {
          timed := fun _ => ⟨_, _, rfl, rfl⟩
          critical := critical
          handled := handled_push inv.handled rfl
          fresh := by simp
          ready := by simp
          bounded := inv.bounded
          queued := queued
          numbered := numbered
          single := narrower_single inv narrower
          dialling := by
            intro f member id other dials
            rw [locks id]
            rcases List.mem_cons.mp member with rfl | member
            · cases dials
              exact ⟨{ conn with lock := 1 }, by rw [if_pos rfl, found]; rfl, named, rfl⟩
            · obtain ⟨c, stored, holds, locked⟩ := inv.dialling f member id other dials
              by_cases same : id = target
              · subst same
                exact ⟨{ c with lock := 1 }, by rw [if_pos rfl, stored]; rfl, holds, rfl⟩
              · exact ⟨c, by rw [if_neg same, stored], holds, locked⟩
          distinct := by
            simp only [Frame.dials, List.filterMap_cons, Option.map_some, List.nodup_cons]
            refine ⟨?_, inv.distinct⟩
            intro held
            obtain ⟨f, member, dials⟩ := List.mem_filterMap.mp held
            obtain ⟨⟨id, other⟩, shown, rfl⟩ := Option.map_eq_some_iff.mp dials
            obtain ⟨c, stored, -, locked⟩ := inv.dialling f member id other shown
            rw [found] at stored
            cases stored
            simp [unlocked] at locked
          plain := inv.plain
          dialled := inv.dialled }
      · cases ran
    · cases ran
  · cases ran

/-- The request being dialled is still queued, whatever the nested calls did,
so `connect` reads its own copy. -/
theorem connect_inv (inv : Inv s) (ran : connect s ret = some t) : Inv t := by
  unfold connect at ran
  split at ran
  · rename_i target pair clock rest shape
    cases ran
    obtain ⟨conn, found, named, locked⟩ := inv.dialling (.doconnect target pair clock)
      (shape ▸ List.mem_cons_self) target pair rfl
    obtain ⟨pending, agrees⟩ := inv.queued target conn pair found named
    have quiet : ∀ aim other sin, Agrees s.trace other sin →
        Agrees (.connect pair aim :: s.trace) other sin := by
      intro aim other sin holds
      exact (agrees_cons (by simp)).mpr holds
    exact {
      timed := fun _ => ⟨_, _, rfl, rfl⟩
      critical := rest_critical inv shape
      handled := handled_push (handled_rest (shape ▸ inv.handled)) rfl
      fresh := by simp
      ready := by simp
      bounded := by
        intro o member
        rcases List.mem_cons.mp member with rfl | member
        · exact pending_lt pending
        · exact inv.bounded o member
      queued := by
        intro id c other queued holds
        obtain ⟨open_, agrees⟩ := inv.queued id c other queued holds
        exact ⟨open_, quiet _ _ _ agrees⟩
      numbered := inv.numbered
      single := inv.single
      dialling := by
        intro f member id other dials
        rcases List.mem_cons.mp member with rfl | member
        · cases dials
          exact ⟨conn, found, named, locked⟩
        · exact inv.dialling f (shape ▸ List.mem_cons_of_mem _ member) id other dials
      distinct := by
        have all := inv.distinct
        rw [shape] at all
        exact all
      plain := inv.plain
      dialled := by
        intro other aim member
        rcases List.mem_cons.mp member with same | member
        · cases same
          exact ⟨conn.sin, by simp [found], quiet _ _ _ agrees⟩
        · obtain ⟨sin, shape, holds⟩ := inv.dialled other aim member
          exact ⟨sin, shape, quiet _ _ _ holds⟩ }
  · cases ran

private theorem dials_below (inv : Inv s) (shape : s.stack = f :: rest)
    (own : f.dials = some (target, pair)) :
    ∀ g ∈ rest, ∀ id other, g.dials = some (id, other) → id ≠ target := by
  rintro g member id other dials rfl
  have distinct := inv.distinct
  rw [shape, List.filterMap_cons_some (b := id) (by simp [own])] at distinct
  exact (List.nodup_cons.mp distinct).1 (List.mem_filterMap.mpr ⟨g, member, by simp [dials]⟩)

/-- The activation that ends is the only one working on its request, and no
other request belongs to its pair. -/
theorem finishConn_inv (inv : Inv s) (ran : finishConn s = some t) : Inv t := by
  unfold finishConn at ran
  split at ran
  · rename_i target pair clock ret rest shape
    have critical := rest_critical inv shape
    have handled : Handled rest := handled_rest (shape ▸ inv.handled)
    obtain ⟨conn, found, named, -⟩ := inv.dialling (.connecting target pair clock ret)
      (shape ▸ List.mem_cons_self) target pair rfl
    have below := dials_below inv shape rfl
    have dialling : ∀ g : Conn → Conn, (∀ c, (g c).id = c.id) → ∀ f ∈ rest, ∀ id other,
        f.dials = some (id, other) → ∃ c, findConn (updateConn s.conns target g) id = some c ∧
          c.pair = some other ∧ c.lock = 1 := by
      intro g keeps f member id other dials
      obtain ⟨c, stored, holds, locked⟩ :=
        inv.dialling f (shape ▸ List.mem_cons_of_mem _ member) id other dials
      refine ⟨c, ?_, holds, locked⟩
      rw [findConn_updateConn s.conns target id g keeps, if_neg (below f member id other dials), stored]
    dsimp only at ran
    split at ran
    · cases ran
      have narrower := narrower_update s.conns target (fun c => { c with lock := 0 })
        (fun _ => ⟨rfl, rfl, fun _ named => named⟩)
      have queued := narrower_queued inv narrower
      have numbered := narrower_numbered inv narrower
      exact {
        timed := by simp
        critical := fun f member => critical f (List.mem_of_mem_tail member)
        handled := handled
        fresh := fun _ _ _ top => no_critical_top top critical rfl
        ready := fun _ _ _ top => no_critical_top top critical rfl
        bounded := inv.bounded
        queued := queued
        numbered := numbered
        single := narrower_single inv narrower
        dialling := dialling _ (fun _ => rfl)
        distinct := rest_distinct inv shape
        plain := inv.plain
        dialled := inv.dialled }
    · cases ran
      have narrower := narrower_update s.conns target (fun c => { c with pair := none, lock := -1 })
        (fun _ => ⟨rfl, rfl, fun _ named => by cases named⟩)
      have numbered := narrower_numbered inv narrower
      have others : ∀ id c other, findConn (updateConn s.conns target
          fun c => { c with pair := none, lock := -1 }) id = some c → c.pair = some other →
          other ≠ pair := by
        rintro id c other stored holds rfl
        obtain ⟨before, old, -, keeps⟩ := narrower id c stored
        have same := inv.single id target before conn other old found (keeps _ holds) named
        subst same
        rw [findConn_updateConn s.conns id id (fun c => { c with pair := none, lock := -1 })
          (fun _ => rfl), if_pos rfl, found] at stored
        cases stored
        cases holds
      exact {
        timed := by simp
        critical := fun f member => critical f (List.mem_of_mem_tail member)
        handled := handled
        fresh := fun _ _ _ top => no_critical_top top critical rfl
        ready := fun _ _ _ top => no_critical_top top critical rfl
        bounded := by
          intro o member
          have bound := inv.bounded o member
          dsimp only
          split <;> simpa using bound
        queued := by
          intro id c other stored holds
          obtain ⟨pending, agrees⟩ := narrower_queued inv narrower id c other stored holds
          have differ := others id c other stored holds
          refine ⟨?_, agrees⟩
          dsimp only
          split
          · exact pending_modify_ne pending differ _
          · exact pending_modify_ne pending differ _
        numbered := numbered
        single := narrower_single inv narrower
        dialling := dialling _ (fun _ => rfl)
        distinct := rest_distinct inv shape
        plain := by
          refine ⟨?_, inv.plain.2⟩
          dsimp only
          split
          · exact plain_modify inv.plain.1 _ _ (fun _ => rfl)
          · exact plain_modify inv.plain.1 _ _ (fun _ => rfl)
        dialled := inv.dialled }
  · cases ran

/-- A request being dialled is never freed: its pair is still open. -/
theorem removeConn_inv (inv : Inv s) (ran : removeConn s target = some t) : Inv t := by
  unfold removeConn at ran
  split at ran
  · rename_i rest conn shape found
    split at ran
    · cases ran
    · rename_i dead
      cases ran
      have narrower := narrower_filter s.conns target
      have queued := narrower_queued inv narrower
      have numbered := narrower_numbered inv narrower
      have critical : ∀ f ∈ s.stack, f.critical = false := by
        rw [shape]
        exact List.forall_mem_cons.mpr ⟨rfl, rest_critical inv shape⟩
      exact {
        timed := inv.timed
        critical := inv.critical
        handled := inv.handled
        fresh := fun _ _ _ top => no_critical_top top critical rfl
        ready := fun _ _ _ top => no_critical_top top critical rfl
        bounded := inv.bounded
        queued := queued
        numbered := numbered
        single := narrower_single inv narrower
        dialling := by
          intro f member id other dials
          obtain ⟨c, stored, holds, locked⟩ := inv.dialling f member id other dials
          refine ⟨c, ?_, holds, locked⟩
          rw [findConn_filter, if_neg ?_, stored]
          rintro rfl
          rw [found] at stored
          cases stored
          exact dead (by simpa [holds] using pending_alive (inv.queued id conn other found holds).1)
        distinct := inv.distinct
        plain := inv.plain
        dialled := inv.dialled }
  · cases ran

/-- Every step of the repeater keeps the invariant. -/
theorem step_inv (inv : Inv s) (ran : step s e = some t) : Inv t := by
  cases e with
  | select => exact select_inv inv ran
  | readable stone => exact readable_inv inv ran
  | accept call => exact doaccept_inv inv ran
  | lookup kernel => exact lookup_inv inv ran
  | request memory now => exact request_inv inv ran
  | beginIo => exact beginIo_inv inv ran
  | endIo closed => exact endIo_inv inv ran
  | doproxy pair sin memory now => exact doproxy_inv inv ran
  | scanConns => exact scanConns_inv inv ran
  | asyncConn id now => exact asyncConn_inv inv ran
  | connect ret => exact connect_inv inv ran
  | finishConn => exact finishConn_inv inv ran
  | removeConn id => exact removeConn_inv inv ran
  | done => exact done_inv inv ran
  | sigalrm => exact sigalrm_inv inv ran

theorem run_inv (plain : ∀ l ∈ listeners, l.command ≠ .proxy)
    (ran : run step (initial mode listeners) events = some s) : Inv s :=
  run_invariant (fun _ _ _ inv ran => step_inv inv ran) (initial_inv mode listeners plain) ran

end Fdgw.Repeater
