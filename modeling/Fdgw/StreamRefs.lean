import Fdgw.StreamOrder

/-!
Reference counts. `asyncRead` and `asyncWrite` hold their half, and its partner
if it has one, while they run; a queued connect request holds the destination
half. `scanClose` closes a socket when nobody holds the half and frees a half
whose socket is closed, so the counts decide whether a call can find its half
gone. `Refs` is the part of a state this depends on.
-/
namespace Fdgw.Stream
open Runs

variable {s t : State} {h x : Side} {e : Event} {p : Bool}

/-! ## Who holds a half -/

/-- The fields of a half that decide about its life, and its mode. -/
structure Shell where
  base : Bool
  listed : Bool
  sd : Bool
  pair : Bool
  count : Int
  deriving DecidableEq, Repr

def Half.shell (x : Half) : Shell := ⟨x.base, x.listed, x.sd, x.pair, x.count⟩

/-- The half a call works on and whether it also holds the partner. -/
def Frame.use : Frame → Option (Side × Bool)
  | .read h p _ => some (h, p)
  | .write h p _ => some (h, p)
  | _ => none

/-- `connects` counts the calls to `doconnect` in progress. -/
@[ext] structure Refs where
  shell : Side → Shell
  uses : List (Side × Bool)
  conn : Conn
  connects : Nat

def refs (s : State) : Refs where
  shell h := (s.half h).shell
  uses := s.stack.filterMap Frame.use
  conn := s.conn
  connects := s.stack.count .connect

def holds (h : Side) (use : Side × Bool) : Bool := use.1 = h || use.2 && use.1 = h.peer

namespace Refs

variable {r : Refs}

/-- The number of calls that hold `h`. -/
def users (r : Refs) (h : Side) : Nat := r.uses.countP (holds h)

/-- The reference of the connect request. -/
def request (r : Refs) (h : Side) : Int := if h = .dst ∧ r.conn ≠ .finished then 1 else 0

def modify (r : Refs) (x : Side) (f : Shell → Shell) : Refs :=
  { r with shell := Function.update r.shell x (f (r.shell x)) }

/-- `d` is added to the count of `h`, and to that of its partner if `p` is set. -/
def shift (r : Refs) (h : Side) (p : Bool) (d : Int) : Refs :=
  let r := r.modify h fun y => { y with count := y.count + d }
  if p then r.modify h.peer fun y => { y with count := y.count + d } else r

@[simp] theorem modify_self (f : Shell → Shell) : (r.modify x f).shell x = f (r.shell x) := by
  simp [modify]

@[simp] theorem modify_peer (f : Shell → Shell) : (r.modify x f).shell x.peer = r.shell x.peer := by
  simp [modify]

@[simp] theorem modify_peer_self (f : Shell → Shell) : (r.modify x.peer f).shell x = r.shell x := by
  simp [modify]

theorem shift_shell (d : Int) : (r.shift x p d).shell h =
    { r.shell h with count := (r.shell h).count + if holds h (x, p) then d else 0 } := by
  rcases Side.eq_or_peer x h with rfl | rfl
  · cases p <;> simp [shift, holds]
  · cases p <;> simp [shift, holds]

@[simp] theorem shift_uses (d : Int) : (r.shift x p d).uses = r.uses := by
  cases p <;> rfl

@[simp] theorem shift_conn (d : Int) : (r.shift x p d).conn = r.conn := by
  cases p <;> rfl

@[simp] theorem shift_connects (d : Int) : (r.shift x p d).connects = r.connects := by
  cases p <;> rfl

end Refs

/-! ## Steps -/

theorem refs_modify (f : Half → Half) (same : ∀ y : Half, (f y).shell = y.shell) :
    refs (s.modify x f) = refs s := by
  refine Refs.ext (funext fun h => ?_) rfl rfl rfl
  rcases Side.eq_or_peer x h with rfl | rfl
  · simp [refs, same]
  · simp [refs]

theorem refs_shell (f : Half → Half) (g : Shell → Shell) (same : ∀ y : Half, (f y).shell = g y.shell) :
    refs (s.modify x f) = (refs s).modify x g := by
  refine Refs.ext (funext fun h => ?_) rfl rfl rfl
  rcases Side.eq_or_peer x h with rfl | rfl
  · simp [refs, same]
  · simp [refs]

theorem refs_hold : refs (hold s x) = (refs s).shift x (s.half x).pair 1 := by
  simp only [hold, modify_half_self, Refs.shift]
  split
  · rw [refs_shell _ (fun y => { y with count := y.count + 1 }) fun _ => rfl,
      refs_shell _ (fun y => { y with count := y.count + 1 }) fun _ => rfl]
  · rw [refs_shell _ (fun y => { y with count := y.count + 1 }) fun _ => rfl]

theorem refs_release : refs (release s x p) = (refs s).shift x p (-1) := by
  simp only [release, Refs.shift]
  split
  · rw [refs_shell _ (fun y => { y with count := y.count + -1 }) fun _ => rfl,
      refs_shell _ (fun y => { y with count := y.count + -1 }) fun _ => rfl]
  · rw [refs_shell _ (fun y => { y with count := y.count + -1 }) fun _ => rfl]

@[simp] theorem refs_doclose : refs (doclose s x) = refs s := by
  simp only [doclose]
  split
  · rfl
  · split
    · split
      · rw [refs_modify, refs_modify] <;> exact fun _ => rfl
      · rw [refs_modify]
        exact fun _ => rfl
    · rw [refs_modify]
      exact fun _ => rfl


/-- Everything a step can do to the references. -/
inductive Moves (r : Refs) : Event → Refs → Prop
  | still (e : Event) : Moves r e r
  | begins (e : Event) (h : Side) (which : e = .readable h ∨ e = .writable h)
      (listed : (r.shell h).listed) (sd : (r.shell h).sd) :
      Moves r e { r.shift h (r.shell h).pair 1 with uses := (h, (r.shell h).pair) :: r.uses }
  | ends (e : Event) (h : Side) (p : Bool) (rest : List (Side × Bool))
      (top : r.uses = (h, p) :: rest) : Moves r e { r.shift h p (-1) with uses := rest }
  | idle (h : Side) (positive : 0 < (r.shell h).count) :
      Moves r (.idle h) (r.modify h fun y => { y with count := y.count - 1 })
  | closes (h : Side) (unheld : (r.shell h).count ≤ 0) :
      Moves r (.scanClose h) (r.modify h fun y => { y with sd := false })
  | frees (h : Side) (listed : (r.shell h).listed) (closed : (r.shell h).sd = false) :
      Moves r (.scanClose h) ((if (r.shell h).pair then
        r.modify h.peer fun y => { y with pair := false } else r).modify h
          fun y => { y with listed := false })
  | connects (queued : r.conn = .queued) :
      Moves r .asyncConn { r with conn := .locked, connects := r.connects + 1 }
  | drops (pending : r.conn ≠ .finished) : Moves r .dropConn { r with conn := .finished }
  | retries (n : Nat) (calls : r.connects = n + 1) :
      Moves r .retryConn { r with conn := .queued, connects := n }
  | connected (success : Bool) (n : Nat) (calls : r.connects = n + 1) :
      Moves r (.finishConn success) (Refs.modify { r with conn := .finished, connects := n } .dst
        fun y => { y with count := y.count - 1 })

/-- The step leaves the references alone. -/
theorem Moves.of_eq (same : refs t = refs s) : Moves (refs s) e (refs t) := by
  rw [same]
  exact .still e

theorem exception_moves (ran : exception s h = some t) : Moves (refs s) (.exception h) (refs t) := by
  simp only [exception] at ran
  split at ran
  · cases ran
    exact .of_eq refs_doclose
  · cases ran

/-- A call on `h` begins. -/
theorem refs_begins (f : Half → Half) (same : ∀ y : Half, (f y).shell = y.shell) (frame : Frame)
    (use : frame.use = some (h, ((hold (s.modify h f) h).half h).pair)) :
    refs { hold (s.modify h f) h with stack := frame :: (hold (s.modify h f) h).stack } =
      { (refs s).shift h ((refs s).shell h).pair 1 with
        uses := (h, ((refs s).shell h).pair) :: (refs s).uses } := by
  have entered : refs (s.modify h f) = refs s := refs_modify f same
  have pair : ((s.modify h f).half h).pair = ((refs s).shell h).pair :=
    congrArg (fun r : Refs => (r.shell h).pair) entered
  have held : refs (hold (s.modify h f) h) = (refs s).shift h ((refs s).shell h).pair 1 := by
    rw [refs_hold, entered, pair]
  have still : ((hold (s.modify h f) h).half h).pair = ((refs s).shell h).pair := by
    have same := congrArg (fun r : Refs => (r.shell h).pair) held
    rw [Refs.shift_shell] at same
    exact same
  have calling : frame ≠ .connect := by
    rintro rfl
    cases use
  refine Refs.ext ?_ ?_ ?_ ?_
  · change (refs (hold (s.modify h f) h)).shell = _
    rw [held]
  · change List.filterMap Frame.use (frame :: _) = _
    rw [List.filterMap_cons_some use, still, hold_stack]
    rfl
  · change (refs (hold (s.modify h f) h)).conn = _
    rw [held]
  · change List.count _ (frame :: _) = _
    rw [List.count_cons_of_ne calling]
    change (refs (hold (s.modify h f) h)).connects = _
    rw [held]

theorem readable_moves (ran : readable s h = some t) : Moves (refs s) (.readable h) (refs t) := by
  simp only [readable] at ran
  split at ran
  · rename_i chosen
    cases ran
    simp only [visited, Bool.and_eq_true] at chosen
    rw [refs_begins Half.enterRead (fun _ => rfl) _ rfl]
    exact .begins (.readable h) h (.inl rfl) chosen.1.1.1.2 chosen.1.1.2
  · cases ran

theorem writable_moves (ran : writable s h = some t) : Moves (refs s) (.writable h) (refs t) := by
  simp only [writable] at ran
  split at ran
  · rename_i chosen
    cases ran
    simp only [visited, Bool.and_eq_true] at chosen
    rw [refs_begins Half.enterWrite (fun _ => rfl) _ rfl]
    exact .begins (.writable h) h (.inr rfl) chosen.1.1.1.2 chosen.1.1.2
  · cases ran

theorem idle_moves (ran : idle s h = some t) : Moves (refs s) (.idle h) (refs t) := by
  simp only [idle] at ran
  split at ran
  · cases ran
    by_cases positive : 0 < (s.half h).count
    · have given : refs (s.modify h fun x =>
          { x with count := if 0 < x.count then x.count - 1 else x.count }) =
          (refs s).modify h fun y => { y with count := y.count - 1 } := by
        refine Refs.ext (funext fun y => ?_) rfl rfl rfl
        rcases Side.eq_or_peer h y with rfl | rfl
        · simp [refs, Half.shell, positive]
        · simp [refs]
      rw [given]
      exact .idle h positive
    · refine .of_eq (Refs.ext (funext fun y => ?_) rfl rfl rfl)
      rcases Side.eq_or_peer h y with rfl | rfl
      · simp [refs, Half.shell, positive]
      · simp [refs]
  · cases ran

theorem scanClose_moves (ran : scanClose s h = some t) : Moves (refs s) (.scanClose h) (refs t) := by
  simp only [scanClose] at ran
  split at ran
  · split at ran
    · cases ran
    · rename_i here
      have listed : (s.half h).listed = true := by simpa using here
      split at ran
      · rename_i closed
        cases ran
        have socket : (s.half h).sd = false := by simpa using closed
        have freed := Moves.frees (r := refs s) h listed socket
        refine (congrArg (Moves (refs s) (.scanClose h)) ?_).mpr freed
        rw [refs_shell _ (fun y => { y with listed := false }) fun _ => rfl]
        change (refs (if (s.half h).pair then _ else s)).modify _ _ =
          (if (s.half h).pair then _ else refs s).modify _ _
        split
        · rw [refs_doclose, refs_shell _ (fun y => { y with pair := false }) fun _ => rfl]
        · rfl
      · split at ran
        · split at ran
          · rename_i unheld
            cases ran
            simp only [Bool.and_eq_true, decide_eq_true_eq] at unheld
            rw [refs_shell _ (fun y => { y with sd := false }) fun _ => rfl]
            exact .closes h unheld.2
          · cases ran
            exact .of_eq (refs_modify _ fun _ => rfl)
        · split at ran
          · cases ran
            exact .of_eq (refs_modify _ fun _ => rfl)
          · cases ran
            exact .of_eq rfl
  · cases ran

/-! ### Inside a call -/

/-- The frame on top moves on to another point of the same call. -/
theorem refs_repoint {frame next : Frame} {rest : List Frame}
    (halves : ∀ y, (t.half y).shell = (s.half y).shell) (conn : t.conn = s.conn)
    (top : s.stack = frame :: rest) (moved : t.stack = next :: rest)
    (same : next.use = frame.use) (call : frame.use ≠ none) : refs t = refs s := by
  have notConnect : ∀ f : Frame, f.use ≠ none → f ≠ .connect := by
    rintro f used rfl
    exact used rfl
  refine Refs.ext (funext halves) ?_ conn ?_
  · change List.filterMap _ t.stack = List.filterMap _ s.stack
    rw [top, moved, List.filterMap_cons, List.filterMap_cons, same]
  · change List.count _ t.stack = List.count _ s.stack
    rw [top, moved, List.count_cons_of_ne (notConnect next (same ▸ call)),
      List.count_cons_of_ne (notConnect frame call)]

theorem recv_moves {answer : Recv} (ran : recv s answer = some t) :
    Moves (refs s) (.recv answer) (refs t) := by
  simp only [recv] at ran
  split at ran
  · rename_i x p rest top
    by_cases partner : (s.half x).pair = true
    · simp only [if_pos partner] at ran
      split at ran
      · cases ran
        refine .of_eq (refs_repoint (fun y => ?_) rfl top rfl rfl (by simp [Frame.use]))
        rcases Side.eq_or_peer x y with rfl | rfl <;> simp [Half.shell]
      · cases ran
    · simp only [if_neg partner] at ran
      split at ran
      · cases ran
        refine .of_eq (refs_repoint (fun y => ?_) rfl top rfl rfl (by simp [Frame.use]))
        rcases Side.eq_or_peer x y with rfl | rfl <;> simp [Half.shell]
      · cases ran
  · cases ran

theorem convert_shell (x p : Half) (stop : Nat) : (convert x stop p).shell = p.shell := by
  simp only [convert]
  split
  · rfl
  · split <;> rfl

theorem doread_moves (ran : doread s = some t) : Moves (refs s) .doread (refs t) := by
  simp only [doread] at ran
  split at ran
  · rename_i x p start answer rest top
    split at ran
    · cases ran
      exact .of_eq (refs_repoint (fun _ => rfl) rfl top rfl rfl (by simp [Frame.use]))
    · split at ran
      · cases ran
        exact .of_eq (refs_repoint (fun _ => rfl) rfl top rfl rfl (by simp [Frame.use]))
      · cases ran
        have same := refs_doclose (s := s) (x := x.peer)
        refine .of_eq (refs_repoint (fun y => ?_) ?_ top rfl rfl (by simp [Frame.use]))
        · exact congrArg (fun r : Refs => r.shell y) same
        · exact congrArg Refs.conn same
      · cases ran
        exact .of_eq (refs_repoint (fun _ => rfl) rfl top rfl rfl (by simp [Frame.use]))
      · cases ran
        refine .of_eq (refs_repoint (fun y => ?_) rfl top rfl rfl (by simp [Frame.use]))
        rcases Side.eq_or_peer x y with rfl | rfl <;> simp [convert_shell]
  · cases ran

theorem send_moves {answer : Send} (ran : send s answer = some t) :
    Moves (refs s) (.send answer) (refs t) := by
  simp only [send] at ran
  split at ran
  · rename_i x p rest top
    have shell : ∀ y, ((s.modify x fun z => { z with win := false }).half y).shell =
        (s.half y).shell := by
      intro y
      rcases Side.eq_or_peer x y with rfl | rfl <;> simp [Half.shell]
    split at ran
    · split at ran
      · cases ran
        exact .of_eq (refs_repoint shell rfl top rfl rfl (by simp [Frame.use]))
      · cases ran
    · cases ran
      exact .of_eq (refs_repoint shell rfl top rfl rfl (by simp [Frame.use]))
  · cases ran

theorem dowrite_moves (ran : dowrite s = some t) : Moves (refs s) .dowrite (refs t) := by
  simp only [dowrite] at ran
  split at ran
  · rename_i x p answer rest top
    split at ran
    · cases ran
      exact .of_eq (refs_repoint (fun _ => rfl) rfl top rfl rfl (by simp [Frame.use]))
    · split at ran
      · cases ran
        exact .of_eq (refs_repoint (fun _ => rfl) rfl top rfl rfl (by simp [Frame.use]))
      · cases ran
        exact .of_eq (refs_repoint (fun _ => rfl) rfl top rfl rfl (by simp [Frame.use]))
      · cases ran
        refine .of_eq (refs_repoint (fun y => ?_) rfl top rfl rfl (by simp [Frame.use]))
        rcases Side.eq_or_peer x y with rfl | rfl <;> simp [Half.shell]
  · cases ran

/-! ### A call ends -/

theorem refs_ends {frame : Frame} {rest : List Frame} (top : s.stack = frame :: rest)
    (use : frame.use = some (x, p)) :
    refs (release { s with stack := rest } x p) =
      { (refs s).shift x p (-1) with uses := rest.filterMap Frame.use } ∧
    (refs s).uses = (x, p) :: rest.filterMap Frame.use := by
  have calling : frame ≠ .connect := by
    rintro rfl
    cases use
  have connects : rest.count .connect = (refs s).connects := by
    change _ = s.stack.count .connect
    rw [top, List.count_cons_of_ne calling]
  have popped : refs { s with stack := rest } =
      { refs s with uses := rest.filterMap Frame.use } :=
    Refs.ext rfl rfl rfl connects
  refine ⟨?_, ?_⟩
  · rw [refs_release, popped]
    cases p <;> rfl
  · change s.stack.filterMap Frame.use = _
    rw [top, List.filterMap_cons_some use]

theorem refs_firstRead : refs (firstRead s x).1 = refs s := by
  simp only [firstRead]
  split
  · split
    · rw [refs_modify, refs_modify] <;> exact fun _ => rfl
    · rw [refs_modify]
      exact fun _ => rfl
  · rfl

theorem asyncRead_moves (ran : asyncRead s = some t) : Moves (refs s) .asyncRead (refs t) := by
  simp only [asyncRead] at ran
  split at ran
  · rename_i x p value rest top
    obtain ⟨released, uses⟩ := refs_ends top (x := x) (p := p) rfl
    have ended := Moves.ends (r := refs s) .asyncRead x p _ uses
    rw [← released] at ended
    generalize release { s with stack := rest } x p = s' at *
    refine (congrArg (Moves (refs s) .asyncRead) ?_).mpr ended
    split at ran
    · cases ran
      exact refs_doclose
    · have left : refs (s'.modify x Half.leaveRead) = refs s' := refs_modify _ fun _ => rfl
      split at ran
      · have first := (refs_firstRead (s := s'.modify x Half.leaveRead) (x := x)).trans left
        have either : refs (if ((s'.modify x Half.leaveRead).half x).firstR then
            firstRead (s'.modify x Half.leaveRead) x
            else (s'.modify x Half.leaveRead, value)).1 = refs s' := by
          split
          · exact first
          · exact left
        generalize (if ((s'.modify x Half.leaveRead).half x).firstR then
            firstRead (s'.modify x Half.leaveRead) x
            else (s'.modify x Half.leaveRead, value)) = next at *
        split at ran
        · cases ran
          exact (refs_modify Half.setWin fun _ => rfl).trans either
        · cases ran
          exact either
      · cases ran
        exact (refs_modify Half.setRin fun _ => rfl).trans left
  · cases ran

theorem asyncWrite_moves (ran : asyncWrite s = some t) : Moves (refs s) .asyncWrite (refs t) := by
  simp only [asyncWrite] at ran
  split at ran
  · rename_i x p value rest top
    obtain ⟨released, uses⟩ := refs_ends top (x := x) (p := p) rfl
    have ended := Moves.ends (r := refs s) .asyncWrite x p _ uses
    rw [← released] at ended
    generalize release { s with stack := rest } x p = s' at *
    refine (congrArg (Moves (refs s) .asyncWrite) ?_).mpr ended
    split at ran
    · cases ran
      split <;> simp
    · have left : refs (s'.modify x Half.leaveWrite) = refs s' := refs_modify _ fun _ => rfl
      split at ran
      · have first := (refs_modify (s := s'.modify x Half.leaveWrite) (x := x)
          (fun y => { y with firstW := false }) fun _ => rfl).trans left
        split at ran
        · cases ran
          exact (refs_modify Half.setRin fun _ => rfl).trans first
        · cases ran
          exact first
      · cases ran
        exact (refs_modify Half.setWin fun _ => rfl).trans left
  · cases ran

/-! ### Connecting and passes -/

theorem asyncConn_moves (ran : asyncConn s = some t) : Moves (refs s) .asyncConn (refs t) := by
  simp only [asyncConn] at ran
  split at ran
  · rename_i queued
    split at ran
    · cases ran
    · cases ran
      have begun := Moves.connects (r := refs s) queued
      refine (congrArg (Moves (refs s) .asyncConn) ?_).mpr begun
      refine Refs.ext rfl rfl rfl ?_
      change List.count Frame.connect (Frame.connect :: s.stack) = _
      rw [List.count_cons_self]
      rfl
  · cases ran

theorem dropConn_moves (ran : dropConn s = some t) : Moves (refs s) .dropConn (refs t) := by
  simp only [dropConn] at ran
  split at ran
  · split at ran
    · rename_i gone
      cases ran
      exact .drops gone.1
    · cases ran
  · cases ran

theorem retryConn_moves (ran : retryConn s = some t) : Moves (refs s) .retryConn (refs t) := by
  simp only [retryConn] at ran
  split at ran
  · rename_i rest top
    cases ran
    have calls : (refs s).connects = rest.count .connect + 1 := by
      change s.stack.count .connect = _
      rw [top, List.count_cons_self]
    refine (congrArg (Moves (refs s) .retryConn) ?_).mpr (.retries _ calls)
    refine Refs.ext rfl ?_ rfl rfl
    change _ = List.filterMap _ s.stack
    rw [top]
    rfl
  · cases ran

theorem finishConn_moves {success : Bool} (ran : finishConn s success = some t) :
    Moves (refs s) (.finishConn success) (refs t) := by
  simp only [finishConn] at ran
  split at ran
  · rename_i rest top
    cases ran
    have calls : (refs s).connects = rest.count .connect + 1 := by
      change s.stack.count .connect = _
      rw [top, List.count_cons_self]
    have popped : refs { s with stack := rest, conn := .finished } =
        { refs s with conn := .finished, connects := rest.count .connect } := by
      refine Refs.ext rfl ?_ rfl rfl
      change _ = List.filterMap _ s.stack
      rw [top]
      rfl
    refine (congrArg (Moves (refs s) (.finishConn success)) ?_).mpr (.connected success _ calls)
    rw [refs_shell _ (fun y => { y with count := y.count - 1 }) fun _ => rfl]
    rw [← popped]
    congr 1
    split
    · simp
    · rw [refs_modify, refs_modify]
      · split
        · exact refs_modify Half.setWin fun _ => rfl
        · exact refs_modify Half.setRin fun _ => rfl
      · exact fun _ => rfl
      · exact fun _ => rfl
  · cases ran

/-- A call that holds no half of the pair begins. -/
theorem refs_pushes {frame : Frame} (use : frame.use = none) (other : frame ≠ .connect) :
    refs { s with stack := frame :: s.stack } = refs s := by
  refine Refs.ext rfl ?_ rfl ?_
  · exact List.filterMap_cons_none use
  · change List.count _ (frame :: s.stack) = _
    rw [List.count_cons_of_ne other]
    rfl

theorem refs_pops {frame : Frame} {rest : List Frame} (top : s.stack = frame :: rest)
    (use : frame.use = none) (other : frame ≠ .connect) :
    refs { s with stack := rest } = refs s := by
  have pushed := refs_pushes (s := { s with stack := rest }) use other
  rw [← pushed]
  simp only [← top]

theorem step_moves (ran : step s e = some t) : Moves (refs s) e (refs t) := by
  cases e with
  | asyncConn => exact asyncConn_moves ran
  | dropConn => exact dropConn_moves ran
  | retryConn => exact retryConn_moves ran
  | finishConn success => exact finishConn_moves ran
  | exception h => exact exception_moves ran
  | readable h => exact readable_moves ran
  | recv answer => exact recv_moves ran
  | doread => exact doread_moves ran
  | asyncRead => exact asyncRead_moves ran
  | writable h => exact writable_moves ran
  | send answer => exact send_moves ran
  | dowrite => exact dowrite_moves ran
  | asyncWrite => exact asyncWrite_moves ran
  | idle h => exact idle_moves ran
  | scanClose h => exact scanClose_moves ran
  | beginOther =>
    simp only [step, beginOther] at ran
    split at ran
    · cases ran
      exact .of_eq (refs_pushes rfl (by simp))
    · cases ran
  | endOther =>
    simp only [step, endOther] at ran
    split at ran
    · rename_i top
      cases ran
      exact .of_eq (refs_pops top rfl (by simp))
    · cases ran
  | sigalrm =>
    simp only [step, sigalrm] at ran
    split at ran
    · cases ran
    · cases ran
    · cases ran
      exact .of_eq (refs_pushes rfl (by simp))
  | done =>
    simp only [step, done] at ran
    split at ran
    · rename_i top
      cases ran
      exact .of_eq (refs_pops top rfl (by simp))
    · cases ran

/-! ## Before the connection -/

/-- The half without its count and its shutdown bit. -/
def Half.uncounted (x : Half) : Half := { x with count := 0, shutdown := false }

/-- The half is as `doaccept` left it, but for its count and the shutdown bit. -/
def Half.Untouched (x : Half) : Prop :=
  x.uncounted = { accepted x.base 0 [] with buf := x.buf }

structure Fresh (s : State) : Prop where
  halves : ∀ h, (s.half h).Untouched
  full : ∀ h, (s.half h).buf.length = bufMax
  frames : ∀ frame ∈ s.stack, frame.use = none
  history : ∀ h, s.received h = [] ∧ s.sent h = []

/-- `doconnect` is in progress exactly while the request is locked, and nothing
else happens to the pair before it is through. -/
structure Connecting (s : State) : Prop where
  calls : (refs s).connects = if s.conn = .locked then 1 else 0
  fresh : s.conn ≠ .finished → Fresh s

section Untouched

variable {y : Half}

theorem Half.Untouched.closed (fresh : y.Untouched) : y.close = false := congrArg Half.close fresh

theorem Half.Untouched.open (fresh : y.Untouched) : y.sd = true := congrArg Half.sd fresh

theorem Half.Untouched.paired (fresh : y.Untouched) : y.pair = true := congrArg Half.pair fresh

theorem Half.Untouched.rin (fresh : y.Untouched) : y.rin = false := congrArg Half.rin fresh

theorem Half.Untouched.win (fresh : y.Untouched) : y.win = false := congrArg Half.win fresh

theorem Half.Untouched.ein (fresh : y.Untouched) : y.ein = false := congrArg Half.ein fresh

theorem Half.Untouched.readyR (fresh : y.Untouched) : y.readyR = false := congrArg Half.readyR fresh

theorem Half.Untouched.readyW (fresh : y.Untouched) : y.readyW = false := congrArg Half.readyW fresh

theorem Half.Untouched.firstR (fresh : y.Untouched) : y.firstR = true := congrArg Half.firstR fresh

theorem Half.Untouched.start (fresh : y.Untouched) : y.start = 0 := congrArg Half.start fresh

theorem Half.Untouched.len (fresh : y.Untouched) : y.len = 0 := congrArg Half.len fresh

end Untouched

/-- Changing a count or a shutdown bit does not count as touching. -/
theorem Fresh.modify (fresh : Fresh s) (f : Half → Half)
    (same : ∀ y : Half, (f y).uncounted = y.uncounted) : Fresh (s.modify x f) := by
  have base (y : Half) : (f y).base = y.base :=
    (congrArg Half.base (same y) : (f y).uncounted.base = y.uncounted.base)
  have buf (y : Half) : (f y).buf = y.buf :=
    (congrArg Half.buf (same y) : (f y).uncounted.buf = y.uncounted.buf)
  refine ⟨fun h => ?_, fun h => ?_, fresh.frames, fresh.history⟩
  · rcases Side.eq_or_peer x h with rfl | rfl
    · rw [modify_half_self, Half.Untouched, same, base, buf]
      exact fresh.halves h
    · rw [modify_half_peer]
      exact fresh.halves x.peer
  · rcases Side.eq_or_peer x h with rfl | rfl
    · rw [modify_half_self, buf]
      exact fresh.full h
    · rw [modify_half_peer]
      exact fresh.full x.peer

theorem Fresh.restack (fresh : Fresh s) (stack : List Frame) (conn : Conn)
    (frames : ∀ frame ∈ stack, frame.use = none) :
    Fresh { s with stack := stack, conn := conn } :=
  ⟨fresh.halves, fresh.full, frames, fresh.history⟩

theorem doclose_conn : (doclose s x).conn = s.conn := congrArg Refs.conn refs_doclose

theorem Fresh.step (fresh : Fresh s) (ran : step s e = some t) (pending : t.conn ≠ .finished) :
    Fresh t := by
  have uncalled {frame : Frame} {rest : List Frame} (top : s.stack = frame :: rest)
      (call : frame.use ≠ none) : False :=
    call (fresh.frames frame (top ▸ List.mem_cons_self))
  have popped {frame : Frame} {rest : List Frame} (top : s.stack = frame :: rest) :
      ∀ f ∈ rest, f.use = none :=
    fun f member => fresh.frames f (top ▸ List.mem_cons_of_mem frame member)
  cases e with
  | asyncConn =>
    simp only [Stream.step, asyncConn] at ran
    split at ran
    · split at ran
      · cases ran
      · cases ran
        exact fresh.restack _ _ (List.forall_mem_cons.mpr ⟨rfl, fresh.frames⟩)
    · cases ran
  | dropConn =>
    simp only [Stream.step, dropConn] at ran
    split at ran
    · split at ran
      · cases ran
        exact absurd rfl pending
      · cases ran
    · cases ran
  | retryConn =>
    simp only [Stream.step, retryConn] at ran
    split at ran
    · rename_i top
      cases ran
      exact fresh.restack _ _ (popped top)
    · cases ran
  | finishConn success =>
    simp only [Stream.step, finishConn] at ran
    split at ran
    · cases ran
      refine absurd ?_ pending
      simp only [modify_conn]
      split
      · simp [doclose_conn]
      · split <;> rfl
    · cases ran
  | exception h =>
    simp [Stream.step, exception, (fresh.halves h).ein] at ran
  | readable h =>
    simp [Stream.step, readable, (fresh.halves h).rin] at ran
  | writable h =>
    simp [Stream.step, writable, (fresh.halves h).win] at ran
  | recv answer =>
    simp only [Stream.step, recv] at ran
    split at ran
    · rename_i top
      exact (uncalled top (by simp [Frame.use])).elim
    · cases ran
  | doread =>
    simp only [Stream.step, doread] at ran
    split at ran
    · rename_i top
      exact (uncalled top (by simp [Frame.use])).elim
    · cases ran
  | asyncRead =>
    simp only [Stream.step, asyncRead] at ran
    split at ran
    · rename_i top
      exact (uncalled top (by simp [Frame.use])).elim
    · cases ran
  | send answer =>
    simp only [Stream.step, send] at ran
    split at ran
    · rename_i top
      exact (uncalled top (by simp [Frame.use])).elim
    · cases ran
  | dowrite =>
    simp only [Stream.step, dowrite] at ran
    split at ran
    · rename_i top
      exact (uncalled top (by simp [Frame.use])).elim
    · cases ran
  | asyncWrite =>
    simp only [Stream.step, asyncWrite] at ran
    split at ran
    · rename_i top
      exact (uncalled top (by simp [Frame.use])).elim
    · cases ran
  | idle h =>
    simp only [Stream.step, idle] at ran
    split at ran
    · cases ran
      exact fresh.modify _ fun _ => rfl
    · cases ran
  | scanClose h =>
    simp only [Stream.step, scanClose, (fresh.halves h).open, (fresh.halves h).closed] at ran
    split at ran
    · split at ran
      · cases ran
      · simp only [Bool.not_true, Bool.false_eq_true, if_false] at ran
        split at ran
        · cases ran
          exact fresh.modify _ fun _ => rfl
        · cases ran
          exact fresh
    · cases ran
  | beginOther =>
    simp only [Stream.step, beginOther] at ran
    split at ran
    · cases ran
      exact fresh.restack _ _ (List.forall_mem_cons.mpr ⟨rfl, fresh.frames⟩)
    · cases ran
  | endOther =>
    simp only [Stream.step, endOther] at ran
    split at ran
    · rename_i top
      cases ran
      exact fresh.restack _ _ (popped top)
    · cases ran
  | sigalrm =>
    simp only [Stream.step, sigalrm] at ran
    split at ran
    · cases ran
    · cases ran
    · cases ran
      exact fresh.restack _ _ (List.forall_mem_cons.mpr ⟨rfl, fresh.frames⟩)
  | done =>
    simp only [Stream.step, done] at ran
    split at ran
    · rename_i top
      cases ran
      exact fresh.restack _ _ (popped top)
    · cases ran

theorem initial_fresh (base : Side → Bool) (garbage : Side → List Base64.Byte) :
    Fresh (initial base garbage) := by
  refine ⟨fun h => ?_, fun h => ?_, ?_, fun _ => ⟨rfl, rfl⟩⟩
  · cases h <;> rfl
  · cases h <;> exact List.takeD_length ..
  · intro frame member
    rw [List.mem_singleton.mp member]
    rfl

theorem initial_connecting (base : Side → Bool) (garbage : Side → List Base64.Byte) :
    Connecting (initial base garbage) :=
  ⟨rfl, fun _ => initial_fresh base garbage⟩

/-- A request is never dropped: until it is through, neither half can close. -/
theorem Connecting.not_dropped (inv : Connecting s) : dropConn s = none := by
  simp only [dropConn]
  split
  · rw [if_neg]
    rintro ⟨pending, gone⟩
    have fresh := inv.fresh pending
    simp [(fresh.halves _).closed, (fresh.halves _).paired] at gone
  · rfl

section Moves

variable {r r' : Refs}

/-- The calls to `doconnect` and the lock go together. -/
def Refs.Locked (r : Refs) : Prop := r.connects = if r.conn = .locked then 1 else 0

theorem Refs.Locked.calling {n : Nat} (locked : r.Locked) (calls : r.connects = n + 1) :
    r.conn = .locked ∧ n = 0 := by
  rw [Refs.Locked, calls] at locked
  split at locked
  · rename_i here
    exact ⟨here, by omega⟩
  · omega

theorem Moves.locked (moves : Moves r e r') (inv : r.Locked) (kept : e ≠ .dropConn) :
    r'.Locked ∧ (r'.conn ≠ .finished → r.conn ≠ .finished) := by
  cases moves with
  | still | idle | closes => exact ⟨inv, id⟩
  | begins | ends =>
    simp only [Refs.Locked, Refs.shift_conn, Refs.shift_connects]
    exact ⟨inv, id⟩
  | frees =>
    split
    · exact ⟨inv, id⟩
    · exact ⟨inv, id⟩
  | connects queued =>
    simp only [Refs.Locked, queued] at inv ⊢
    simp [inv]
  | drops => exact absurd rfl kept
  | retries n calls =>
    obtain ⟨locked, rfl⟩ := inv.calling calls
    simp [Refs.Locked, locked]
  | connected success n calls =>
    obtain ⟨locked, rfl⟩ := inv.calling calls
    simp [Refs.Locked, Refs.modify, locked]

end Moves

theorem Connecting.kept (inv : Connecting s) (ran : step s e = some t) : e ≠ .dropConn := by
  rintro rfl
  rw [Stream.step, inv.not_dropped] at ran
  cases ran

theorem Connecting.step (inv : Connecting s) (ran : step s e = some t) : Connecting t := by
  obtain ⟨locked, pending⟩ := (step_moves ran).locked inv.calls (inv.kept ran)
  exact ⟨locked, fun going => (inv.fresh (pending going)).step ran going⟩

/-! ## Counts -/

section Counts

variable {r r' : Refs}

/-- Every count is the number of calls that hold the half, and the request. -/
def Refs.Counted (r : Refs) : Prop := ∀ h, (r.shell h).count = r.users h + r.request h

/-- The two halves know of each other as long as both are there. -/
def Refs.Linked (r : Refs) : Prop :=
  ∀ h, (r.shell h).listed → ((r.shell h).pair ↔ (r.shell h.peer).listed)

/-- The step does not give up a reference for idleness. -/
def Patient (s : State) : Event → Prop
  | .idle h => (s.half h).count ≤ 0
  | _ => True

theorem Refs.modify_count (f : Shell → Shell) (same : ∀ y : Shell, (f y).count = y.count) :
    ((r.modify x f).shell h).count = (r.shell h).count := by
  rcases Side.eq_or_peer x h with rfl | rfl
  · simp [same]
  · simp

theorem Refs.Counted.congr (inv : r.Counted) (counts : ∀ h, (r'.shell h).count = (r.shell h).count)
    (uses : r'.uses = r.uses) (request : ∀ h, r'.request h = r.request h) : r'.Counted := by
  intro h
  rw [counts, request, Refs.users, uses]
  exact inv h

theorem Moves.counted (moves : Moves r e r') (inv : r.Counted) (locked : r.Locked)
    (kept : e ≠ .dropConn) (patient : ∀ h, e = .idle h → (r.shell h).count ≤ 0) : r'.Counted := by
  cases moves with
  | still => exact inv
  | begins e x =>
    intro h
    have before := inv h
    simp only [Refs.shift_shell, Refs.users, Refs.request, List.countP_cons, Refs.shift_conn] at before ⊢
    split
    · push_cast
      omega
    · push_cast
      omega
  | ends e x p rest top =>
    intro h
    have before := inv h
    simp only [Refs.users, Refs.request, top, List.countP_cons] at before
    simp only [Refs.shift_shell, Refs.users, Refs.request, Refs.shift_conn]
    split at before
    · rename_i held
      rw [if_pos held]
      push_cast at before
      omega
    · rename_i unheld
      rw [if_neg unheld]
      push_cast at before
      omega
  | idle x positive => exact absurd (patient x rfl) (by omega)
  | closes x =>
    exact inv.congr (fun _ => Refs.modify_count _ fun _ => rfl) rfl fun _ => rfl
  | frees x =>
    split
    · refine inv.congr (fun _ => ?_) rfl fun _ => rfl
      rw [Refs.modify_count, Refs.modify_count] <;> exact fun _ => rfl
    · exact inv.congr (fun _ => Refs.modify_count _ fun _ => rfl) rfl fun _ => rfl
  | connects queued =>
    exact inv.congr (fun _ => rfl) rfl fun _ => by simp [Refs.request, queued]
  | drops => exact absurd rfl kept
  | retries n calls =>
    exact inv.congr (fun _ => rfl) rfl fun _ => by simp [Refs.request, (locked.calling calls).1]
  | connected success n calls =>
    have pending := (locked.calling calls).1
    intro h
    have before := inv h
    cases h with
    | src => simpa [Refs.modify, Refs.users, Refs.request, pending] using before
    | dst =>
      simp only [Refs.users, Refs.request, pending] at before
      simp [Refs.modify, Refs.users, Refs.request]
      simp at before
      omega

theorem Moves.linked (moves : Moves r e r') (inv : r.Linked) : r'.Linked := by
  have counted (x : Side) (f : Shell → Shell) (same : ∀ y : Shell, (f y).listed = y.listed ∧ (f y).pair = y.pair) :
      (r.modify x f).Linked := by
    intro h
    have before := inv h
    rcases Side.eq_or_peer x h with rfl | rfl
    · simpa [same] using before
    · simpa [same] using before
  cases moves with
  | still => exact inv
  | begins e x =>
    intro h
    simpa [Refs.shift_shell] using inv h
  | ends e x p rest top =>
    intro h
    simpa [Refs.shift_shell] using inv h
  | idle x => exact counted x _ fun _ => ⟨rfl, rfl⟩
  | closes x => exact counted x _ fun _ => ⟨rfl, rfl⟩
  | frees x listed closed =>
    have partner := inv x listed
    intro h
    have before := inv h
    rcases Side.eq_or_peer x h with rfl | rfl
    · simp
    · split
      · simp
      · rename_i single
        simp [← partner, single]
  | connects | drops | retries => exact inv
  | connected success n calls =>
    exact counted .dst (fun y => { y with count := y.count - 1 }) fun _ => ⟨rfl, rfl⟩

/-- The mode of a half never changes. -/
theorem Moves.base (moves : Moves r e r') (h : Side) : (r'.shell h).base = (r.shell h).base := by
  have modified (r : Refs) (x : Side) (f : Shell → Shell) (same : ∀ y : Shell, (f y).base = y.base) :
      ((r.modify x f).shell h).base = (r.shell h).base := by
    rcases Side.eq_or_peer x h with rfl | rfl
    · simp [same]
    · simp
  cases moves with
  | still | connects | drops | retries => rfl
  | begins e x | ends e x => simp [Refs.shift_shell]
  | idle x => exact modified _ _ _ fun _ => rfl
  | closes x => exact modified _ _ _ fun _ => rfl
  | frees x =>
    rw [modified]
    · split
      · exact modified _ _ _ fun _ => rfl
      · rfl
    · exact fun _ => rfl
  | connected => exact modified _ _ _ fun _ => rfl

/-- The halves in `held` of every call in progress are there, with open sockets. -/
def Refs.Safe (held : Side → Side × Bool → Bool) (r : Refs) : Prop :=
  ∀ use ∈ r.uses, ∀ h, held h use → (r.shell h).listed ∧ (r.shell h).sd

theorem Refs.Counted.positive (inv : r.Counted) {use : Side × Bool} (member : use ∈ r.uses)
    (held : holds h use) : 0 < (r.shell h).count := by
  have some : 0 < r.users h := List.countP_pos_iff.mpr ⟨use, member, held⟩
  have request : 0 ≤ r.request h := by
    rw [Refs.request]
    split <;> omega
  have count := inv h
  omega

theorem Refs.Safe.modify {held : Side → Side × Bool → Bool} (inv : r.Safe held) (f : Shell → Shell)
    (same : ∀ y : Shell, (f y).listed = y.listed ∧ (f y).sd = y.sd) : (r.modify x f).Safe held := by
  intro use member h holding
  have before := inv use member h holding
  rcases Side.eq_or_peer x h with rfl | rfl
  · simpa [same] using before
  · simpa using before

theorem Moves.safe {held : Side → Side × Bool → Bool} (moves : Moves r e r')
    (weaker : ∀ h use, held h use → holds h use) (inv : r.Safe held) (counted : r.Counted)
    (opens : ∀ x, e = .readable x ∨ e = .writable x → (r.shell x).listed → (r.shell x).sd →
      ∀ h, held h (x, (r.shell x).pair) → (r.shell h).listed ∧ (r.shell h).sd) : r'.Safe held := by
  cases moves with
  | still => exact inv
  | begins e x which listed sd =>
    have old : ∀ use ∈ r.uses, ∀ h, held h use → (r.shell h).listed ∧ (r.shell h).sd := inv
    intro use member h holding
    simp only [Refs.shift_shell]
    rcases List.mem_cons.mp member with rfl | member
    · exact opens x which listed sd h holding
    · exact old use member h holding
  | ends e x p rest top =>
    intro use member h holding
    simp only [Refs.shift_shell]
    exact inv use (top ▸ List.mem_cons_of_mem _ member) h holding
  | idle x => exact inv.modify _ fun _ => ⟨rfl, rfl⟩
  | closes x unheld =>
    intro use member h holding
    rcases Side.eq_or_peer x h with rfl | rfl
    · have positive := counted.positive member (weaker h use holding)
      omega
    · simpa using inv use member x.peer holding
  | frees x listed closed =>
    intro use member h holding
    rcases Side.eq_or_peer x h with rfl | rfl
    · have socket := (inv use (by split at member <;> exact member) h holding).2
      rw [closed] at socket
      cases socket
    · have before := inv use (by split at member <;> exact member) x.peer holding
      split
      · simpa using before
      · simpa using before
  | connects | drops | retries => exact inv
  | connected success n calls =>
    have same : Refs.Safe held { r with conn := .finished, connects := n } := inv
    exact same.modify _ fun _ => ⟨rfl, rfl⟩

end Counts

/-! ## Runs -/

section Runs

variable {base : Side → Bool} {garbage : Side → List Base64.Byte} {es : List Event} {u : State}

/-- What the references keep in a run without idle timeouts. -/
structure Referenced (s : State) : Prop where
  connecting : Connecting s
  counted : (refs s).Counted
  linked : (refs s).Linked

theorem Referenced.step (inv : Referenced s) (patient : Patient s e) (ran : step s e = some t) :
    Referenced t := by
  have moves := step_moves ran
  refine ⟨inv.connecting.step ran, ?_, moves.linked inv.linked⟩
  refine moves.counted inv.counted inv.connecting.calls (inv.connecting.kept ran) ?_
  rintro h rfl
  exact patient

/-- The partner can go while a call holds it: its socket was closed before the call
began, and `scanClose` frees such a half whatever its count. -/
theorem call_loses_partner :
    ∃ es u, run step (initial (fun _ => false) fun _ => []) es = some u ∧
      Guarded step Patient (initial (fun _ => false) fun _ => []) es ∧
      .read .src true .entered ∈ u.stack ∧ (u.half .dst).listed = false ∧
      (u.half .dst).count = 1 := by
  refine ⟨[.asyncConn, .finishConn true, .exception .dst, .scanClose .dst, .readable .src, .sigalrm,
    .scanClose .dst], _, rfl, ?_, by decide, rfl, rfl⟩
  simp [Guarded, Patient]

/-! ## Taking a connection down -/

/-- A closed half that nobody holds, in a pass of `repeater`. -/
structure Leaving (s : State) (h : Side) : Prop where
  pass : ∃ rest, s.stack = .repeater :: rest
  listed : (s.half h).listed = true
  close : (s.half h).close = true
  unheld : (s.half h).count ≤ 0

/-- A visit to `h` leaves the partner alone. -/
structure Beside (s t : State) (h : Side) : Prop where
  stack : t.stack = s.stack
  peer : t.half h.peer = s.half h.peer
  pair : (t.half h).pair = (s.half h).pair

theorem Leaving.unset (leaving : Leaving s h) (sd : (s.half h).sd = true) :
    ∃ n ≤ 1, ∃ t, run step s (List.replicate n (.scanClose h)) = some t ∧ Leaving t h ∧
      Beside s t h ∧ (t.half h).sd = true ∧ ((t.half h).rin || (t.half h).win || (t.half h).ein) = false := by
  obtain ⟨rest, top⟩ := leaving.pass
  by_cases bits : ((s.half h).rin || (s.half h).win || (s.half h).ein) = true
  · refine ⟨1, by omega, s.modify h Half.unset, ?_, ?_, ?_, ?_, ?_⟩
    · have visit : step s (.scanClose h) = some (s.modify h Half.unset) := by
        have set : ((!(s.half h).rin && !(s.half h).win && !(s.half h).ein) &&
            decide ((s.half h).count ≤ 0)) = false := by
          rw [← Bool.not_or, ← Bool.not_or, bits]
          rfl
        simp [step, scanClose, top, leaving.listed, leaving.close, sd, set]
      exact run_cons.mpr ⟨_, visit, rfl⟩
    · exact ⟨⟨rest, top⟩, by simpa [Half.unset] using leaving.listed,
        by simpa [Half.unset] using leaving.close, by simpa [Half.unset] using leaving.unheld⟩
    · exact ⟨rfl, by simp, by simp [Half.unset]⟩
    · simpa [Half.unset] using sd
    · simp [Half.unset]
  · exact ⟨0, by omega, s, rfl, leaving, ⟨rfl, rfl, rfl⟩, sd, by simpa using bits⟩

theorem Leaving.shut (leaving : Leaving s h) (sd : (s.half h).sd = true)
    (bits : ((s.half h).rin || (s.half h).win || (s.half h).ein) = false) :
    ∃ t, step s (.scanClose h) = some t ∧ Leaving t h ∧ Beside s t h ∧ (t.half h).sd = false := by
  obtain ⟨rest, top⟩ := leaving.pass
  simp only [Bool.or_eq_false_iff] at bits
  refine ⟨s.modify h fun x => { x with sd := false }, ?_, ?_, ?_, ?_⟩
  · simp [step, scanClose, top, leaving.listed, leaving.close, sd, bits, leaving.unheld]
  · exact ⟨⟨rest, top⟩, by simpa using leaving.listed, by simpa using leaving.close,
      by simpa using leaving.unheld⟩
  · exact ⟨rfl, by simp, by simp⟩
  · simp

theorem doclose_close : ((doclose s x).half x).close = true := by
  simp only [doclose]
  split
  · assumption
  · split
    · split <;> simp
    · simp

theorem Leaving.free (leaving : Leaving s h) (sd : (s.half h).sd = false) :
    ∃ t, step s (.scanClose h) = some t ∧ t.stack = s.stack ∧ (t.half h).listed = false ∧
      (t.half h.peer).listed = (s.half h.peer).listed ∧
      (t.half h.peer).count = (s.half h.peer).count ∧
      ((s.half h).pair → (t.half h.peer).close = true) := by
  obtain ⟨rest, top⟩ := leaving.pass
  by_cases pair : (s.half h).pair = true
  · refine ⟨(doclose (s.modify h.peer fun p => { p with pair := false }) h.peer).modify h fun x =>
      { x with listed := false }, ?_, ?_, ?_, ?_, ?_, ?_⟩
    · simp [step, scanClose, top, leaving.listed, sd, pair]
    · simp
    · simp
    · have same := congrArg (fun r : Refs => (r.shell h.peer).listed)
        (refs_doclose (s := s.modify h.peer fun p => { p with pair := false }) (x := h.peer))
      simpa [refs, Half.shell] using same
    · have same := congrArg (fun r : Refs => (r.shell h.peer).count)
        (refs_doclose (s := s.modify h.peer fun p => { p with pair := false }) (x := h.peer))
      simpa [refs, Half.shell] using same
    · intro _
      simpa using doclose_close (s := s.modify h.peer fun p => { p with pair := false }) (x := h.peer)
  · refine ⟨s.modify h fun x => { x with listed := false }, ?_, rfl, ?_, ?_, ?_, ?_⟩
    · simp [step, scanClose, top, leaving.listed, sd, pair]
    · simp
    · simp
    · simp
    · intro paired
      exact absurd paired pair

theorem Beside.trans {v : State} (first : Beside s t h) (second : Beside t v h) : Beside s v h :=
  ⟨second.stack.trans first.stack, second.peer.trans first.peer, second.pair.trans first.pair⟩

/-- Two visits at most close the socket. -/
theorem Leaving.socket (leaving : Leaving s h) :
    ∃ n ≤ 2, ∃ t, run step s (List.replicate n (.scanClose h)) = some t ∧ Leaving t h ∧
      Beside s t h ∧ (t.half h).sd = false := by
  by_cases sd : (s.half h).sd = true
  · obtain ⟨n, few, t, ran, still, beside, open', bits⟩ := leaving.unset sd
    obtain ⟨v, shut, gone, further, closed⟩ := still.shut open' bits
    refine ⟨n + 1, by omega, v, ?_, gone, beside.trans further, closed⟩
    rw [List.replicate_succ']
    exact run_append ran (run_cons.mpr ⟨v, shut, rfl⟩)
  · exact ⟨0, by omega, s, rfl, leaving, ⟨rfl, rfl, rfl⟩, by simpa using sd⟩

/-- Three visits at most free a half. -/
theorem Leaving.freed (leaving : Leaving s h) :
    ∃ n ≤ 3, ∃ t, run step s (List.replicate n (.scanClose h)) = some t ∧ t.stack = s.stack ∧
      (t.half h).listed = false ∧ (t.half h.peer).listed = (s.half h.peer).listed ∧
      (t.half h.peer).count = (s.half h.peer).count ∧
      ((s.half h).pair → (t.half h.peer).close = true) := by
  obtain ⟨n, few, t, ran, still, beside, closed⟩ := leaving.socket
  obtain ⟨v, freed, stack, gone, listed, count, close⟩ := still.free closed
  refine ⟨n + 1, by omega, v, ?_, stack.trans beside.stack, gone, ?_, ?_, ?_⟩
  · rw [List.replicate_succ']
    exact run_append ran (run_cons.mpr ⟨v, freed, rfl⟩)
  · rw [listed, beside.peer]
  · rw [count, beside.peer]
  · rw [← beside.pair]
    exact close

end Runs

end Fdgw.Stream
