import Fdgw.RelayTable

/-!
What the relay does, without its tables: the sessions are a list, and every frame
is answered from that list. `handle_refines` is the step of the simulation; along
a run the tables and the list stay together and both send the same frames.
-/
namespace Fdgw.Relay
open Pppoe Links Runs

/-! ## The relay on a list of sessions -/

structure Net where
  interfaces : List Interface
  active : List Flow
  free : List Nat
  epoch : BitVec 32
  idleTimeout : BitVec 32
  cleanPeriod : BitVec 32
  cleanCounter : BitVec 32
  pipe : Nat

def macOf (interfaces : List Interface) (i : Nat) : Mac :=
  match interfaces[i]? with
  | some i => i.mac
  | none => ⟨0, 0, 0, 0, 0, 0⟩

/-- A frame passed on to an end. -/
def forward (interfaces : List Interface) (e : End) (p : Packet) : Packet :=
  { p with session := e.num, source := macOf interfaces e.interface, dest := e.mac }

/-- A session frame for this interface. -/
def accepted (interfaces : List Interface) (iface : Nat) (f : Frame) : Prop :=
  f.packet.ver = 1 ∧ f.packet.type = 1 ∧ f.packet.code = codeSess ∧
    f.packet.dest = macOf interfaces iface ∧ f.packet.length + hdrSize ≤ f.size

instance (interfaces : List Interface) (iface : Nat) (f : Frame) :
    Decidable (accepted interfaces iface f) := by
  unfold accepted
  infer_instance

namespace Net

def onSession (n : Net) (iface : Nat) (f : Frame) : Net × List Sent :=
  if accepted n.interfaces iface f then
    match find n.active f.packet.source f.packet.session with
    | none => (n, [])
    | some (flow, role) =>
      let other := flow.at role.peer
      ({ n with active := n.active.map (Flow.touch flow.slot n.epoch) },
        [⟨other.interface, .session, forward n.interfaces other f.packet, f.size⟩])
  else (n, [])

def onPadt (n : Net) (p : Packet) (size : Nat) : Net × List Sent :=
  match find n.active p.source p.session with
  | none => (n, [])
  | some (flow, role) =>
    let other := flow.at role.peer
    ({ n with active := n.active.erase flow, free := flow.slot :: n.free },
      [⟨other.interface, .session, forward n.interfaces other p, size⟩])

def onPads (n : Net) (iface : Nat) (i : Interface) (p : Packet) (size : Nat) : Net × List Sent :=
  match relayTarget n.interfaces iface i i.acOK Interface.clientOK p with
  | none => (n, [])
  | some (loc, index, target, mac) =>
    if p.session = htons 0 then (n, [sendPads p size loc index target mac])
    else match find n.active p.source p.session with
      | some (flow, _) =>
        (n, [sendPads { p with session := flow.client.num } size loc index target mac])
      | none => match n.free with
        | slot :: free =>
          let flow : Flow := ⟨slot, ⟨iface, p.source, p.session⟩, ⟨index, mac, number slot⟩, n.epoch⟩
          ({ n with active := flow :: n.active, free := free },
            [sendPads { p with session := number slot } size loc index target mac])
        | [] =>
          let hostUniq := (findTag p tagHostUniq).map p.tagPayload
          (n, relaySendError n.interfaces codePads (htons 0) index mac hostUniq unableToAllocate ++
            relaySendError n.interfaces codePadt p.session iface p.source none unableToAllocate)

def onDiscovery (n : Net) (iface : Nat) (i : Interface) (f : Frame) : Net × List Sent :=
  let p := f.packet
  let size := p.length + hdrSize
  if p.ver ≠ 1 ∨ p.type ≠ 1 then (n, [])
  else if f.size < p.length + hdrSize then (n, [])
  else if p.code = codePadt then n.onPadt p size
  else if p.code = codePadi then (n, relayHandlePADI n.interfaces iface i p size)
  else if p.code = codePado then (n, relayHandlePADO n.interfaces iface i p size)
  else if p.code = codePadr then (n, relayHandlePADR n.interfaces iface i p size)
  else if p.code = codePads then n.onPads iface i p size
  else (n, [])

/-- Idle sessions end, and both ends are told. -/
def clean (n : Net) : Net × List Sent :=
  let stale := n.active.filter (Flow.stale n.epoch n.idleTimeout)
  ({ n with
    active := n.active.filter fun f => !f.stale n.epoch n.idleTimeout
    free := (stale.map Flow.slot).reverse ++ n.free }, stale.flatMap (goodbye n.interfaces))

def handle (n : Net) : Event → Net × List Sent
  | .session iface f => n.onSession iface f
  | .discovery iface f => match n.interfaces[iface]? with
    | some i => n.onDiscovery iface i f
    | none => (n, [])
  | .clean =>
    if n.pipe = 0 then (n, [])
    else
      let n := { n with cleanCounter := 0, pipe := n.pipe - 1 }
      if n.idleTimeout ≠ 0 then n.clean else (n, [])
  | .alarm =>
    if n.idleTimeout = 0 then (n, [])
    else
      let counter := n.cleanCounter + 1
      ({ n with
        epoch := n.epoch + 1
        cleanCounter := counter
        pipe := if counter = n.cleanPeriod then n.pipe + 1 else n.pipe }, [])

/-- The list of sessions with all that has been sent. -/
def step (s : Net × List Sent) (e : Event) : Net × List Sent :=
  ((s.1.handle e).1, s.2 ++ (s.1.handle e).2)

def started (c : Config) : Net where
  interfaces := c.interfaces
  active := []
  free := List.range c.nsess
  epoch := 0
  idleTimeout := c.idleTimeout
  cleanPeriod := Relay.cleanPeriod c.idleTimeout
  cleanCounter := 0
  pipe := 0

end Net

/-! ## Simulation -/

/-- The relay has the sessions of the list, on interfaces that exist. -/
structure Abstracts (r : State) (n : Net) (ps : List Placed) (spare : List Nat) : Prop where
  table : Represents r.table ps n.free spare
  active : n.active = ps.map Placed.flow
  valid : ∀ p ∈ ps, ∀ role, (p.flow.at role).interface < r.interfaces.length
  interfaces : n.interfaces = r.interfaces
  epoch : n.epoch = r.epoch
  idleTimeout : n.idleTimeout = r.idleTimeout
  cleanPeriod : n.cleanPeriod = r.cleanPeriod
  cleanCounter : n.cleanCounter = r.cleanCounter
  pipe : n.pipe = r.pipe

/-- The event is about an interface of the relay. -/
def Event.on (k : Nat) : Event → Prop
  | .session iface _ => iface < k
  | .discovery iface _ => iface < k
  | _ => True

instance (k : Nat) : DecidablePred (Event.on k)
  | .session iface _ => inferInstanceAs (Decidable (iface < k))
  | .discovery iface _ => inferInstanceAs (Decidable (iface < k))
  | .clean => isTrue trivial
  | .alarm => isTrue trivial

section Simulation

variable {r : State} {n : Net} {ps : List Placed} {spare : List Nat} {p : Packet} {f : Frame}
  {iface size : Nat}

theorem findPlaced_mem {mac : Mac} {num : SessionNumber} {q : Placed} {role : Role}
    (found : findPlaced ps mac num = some (q, role)) :
    q ∈ ps ∧ (q.flow.at role).matches mac num := by
  unfold findPlaced at found
  have hit := List.find?_some found
  obtain ⟨p, inside, which⟩ := List.mem_flatMap.mp (List.mem_of_find?_eq_some found)
  simp only [List.mem_cons, List.not_mem_nil, or_false, Prod.mk.injEq] at which
  refine ⟨?_, hit⟩
  rcases which with ⟨rfl, -⟩ | ⟨rfl, -⟩ <;> exact inside

theorem Abstracts.readdress_eq (abs : Abstracts r n ps spare) {q : Placed} (member : q ∈ ps)
    (role : Role) :
    readdress r.interfaces (q.entry role) p = some (forward n.interfaces (q.flow.at role) p) := by
  have here := abs.valid q member role
  rw [abs.interfaces]
  simp [readdress, forward, macOf, Placed.entry, here]

/-- The session `findSession` comes upon, with all that is read from its entries. -/
theorem Abstracts.known (abs : Abstracts r n ps spare) {mac : Mac} {num : SessionNumber}
    {q : Placed} {role : Role} (found : findPlaced ps mac num = some (q, role)) :
    q ∈ ps ∧ find n.active mac num = some (q.flow, role) ∧
      findSession r.table mac num = some (q.hashAt role) ∧
      r.table.hash (q.hashAt role) = q.entry role ∧
      r.table.hash (q.hashAt role.peer) = q.entry role.peer := by
  have member := (findPlaced_mem found).1
  refine ⟨member, ?_, ?_, abs.table.entries q member role, abs.table.entries q member role.peer⟩
  · rw [abs.active, find_placed, found]
    rfl
  · rw [abs.table.findSession, found]
    rfl

theorem Abstracts.unknown (abs : Abstracts r n ps spare) {mac : Mac} {num : SessionNumber}
    (missing : findPlaced ps mac num = none) :
    find n.active mac num = none ∧ findSession r.table mac num = none := by
  rw [abs.active, find_placed, abs.table.findSession, missing]
  exact ⟨rfl, rfl⟩

/-- The checks in front of the lookup. -/
theorem relayGotSessionPacket_eq (here : iface < r.interfaces.length) :
    relayGotSessionPacket r iface f =
      if accepted r.interfaces iface f then
        match findSession r.table f.packet.source f.packet.session with
        | none => some (r, [])
        | some sh => do
          let ses ← (r.table.hash sh).ses
          let peer ← (r.table.hash sh).peer
          let p ← readdress r.interfaces (r.table.hash peer) f.packet
          some ({ r with
            table := { r.table with
              session := Function.update r.table.session ses
                { r.table.session ses with epoch := r.epoch } } },
            [⟨(r.table.hash peer).interface, .session, p, f.size⟩])
      else some (r, []) := by
  have known : r.interfaces[iface]? = some r.interfaces[iface] := List.getElem?_eq_getElem here
  simp only [relayGotSessionPacket, known, Option.bind_eq_bind, Option.bind_some]
  by_cases version : f.packet.ver ≠ 1 ∨ f.packet.type ≠ 1
  · rw [if_pos version, if_neg]
    rintro ⟨ver, type, -⟩
    exact version.elim (· ver) (· type)
  · rw [if_neg version]
    by_cases code : f.packet.code ≠ codeSess
    · rw [if_pos code, if_neg fun ok => code ok.2.2.1]
    · rw [if_neg code]
      have mac : macOf r.interfaces iface = r.interfaces[iface].mac := by
        simp [macOf, known]
      by_cases dest : f.packet.dest ≠ r.interfaces[iface].mac
      · rw [if_pos dest, if_neg fun ok => dest (mac ▸ ok.2.2.2.1)]
      · rw [if_neg dest]
        by_cases short : f.size < f.packet.length + hdrSize
        · rw [if_pos short, if_neg fun ok => absurd ok.2.2.2.2 (by omega)]
        · rw [not_or, not_not, not_not] at version
          have ok : accepted r.interfaces iface f :=
            ⟨version.1, version.2, not_not.mp code, (not_not.mp dest).trans mac.symm, by omega⟩
          exact (if_neg short).trans (if_pos ok).symm

theorem session_refines (abs : Abstracts r n ps spare) (here : iface < r.interfaces.length) :
    ∃ r' ps' spare', relayGotSessionPacket r iface f = some (r', (n.onSession iface f).2) ∧
      Abstracts r' (n.onSession iface f).1 ps' spare' := by
  rw [relayGotSessionPacket_eq here]
  by_cases ok : accepted r.interfaces iface f
  · rw [Net.onSession, abs.interfaces, if_pos ok, if_pos ok]
    cases found : findPlaced ps f.packet.source f.packet.session with
    | none =>
      obtain ⟨unknown, missing⟩ := abs.unknown found
      rw [unknown, missing]
      exact ⟨r, ps, spare, rfl, abs⟩
    | some e =>
      obtain ⟨q, role⟩ := e
      obtain ⟨member, seen, hit, entry, peer⟩ := abs.known found
      have ses : (q.entry role).ses = some q.slot := rfl
      have other : (q.entry role).peer = some (q.hashAt role.peer) := rfl
      have address := abs.readdress_eq (p := f.packet) member role.peer
      rw [abs.interfaces] at address
      simp only [seen, hit, entry, ses, other, peer, address, Option.bind_eq_bind, Option.bind_some]
      refine ⟨_, ps.map (Placed.touch q.slot r.epoch), spare, rfl, ⟨abs.table.touch, ?_, ?_,
        rfl, abs.epoch, abs.idleTimeout, abs.cleanPeriod, abs.cleanCounter, abs.pipe⟩⟩
      · simp only [abs.active, abs.epoch, List.map_map]
        rfl
      · intro p inside side
        obtain ⟨p, before, rfl⟩ := List.mem_map.mp inside
        simpa [Placed.touch] using abs.valid p before side
  · rw [Net.onSession, abs.interfaces, if_neg ok, if_neg ok]
    exact ⟨r, ps, spare, rfl, abs⟩

/-- The session leaves the list, which has each slot once. -/
theorem Abstracts.closed (abs : Abstracts r n ps spare) {q : Placed} (member : q ∈ ps) :
    ∃ ps' spare', Abstracts { r with table := closed r.table q }
      { n with active := n.active.erase q.flow, free := q.flow.slot :: n.free } ps' spare' := by
  obtain ⟨l1, l2, split⟩ := List.append_of_mem member
  have table := abs.table
  rw [split] at table
  have fresh : q.flow ∉ l1.map Placed.flow := by
    intro there
    obtain ⟨p, inside, same⟩ := List.mem_map.mp there
    have nodup := table.active_nodup
    rw [List.map_append, List.map_cons] at nodup
    have slots : p.slot = q.slot := congrArg Flow.slot same
    exact (List.nodup_append.mp nodup).2.2 _ (List.mem_map_of_mem inside) _ (by simp) slots
  refine ⟨l1 ++ l2, q.clientHash :: q.acHash :: spare, ⟨table.closed, ?_, ?_, abs.interfaces, abs.epoch,
    abs.idleTimeout, abs.cleanPeriod, abs.cleanCounter, abs.pipe⟩⟩
  · simp only [abs.active, split, List.map_append, List.map_cons]
    rw [List.erase_append_right _ fresh, List.erase_cons_head]
  · intro p inside side
    refine abs.valid p ?_ side
    simp only [split, List.mem_append, List.mem_cons] at inside ⊢
    tauto

theorem padt_refines (abs : Abstracts r n ps spare) :
    ∃ r' ps' spare', relayHandlePADT r p size = some (r', (n.onPadt p size).2) ∧
      Abstracts r' (n.onPadt p size).1 ps' spare' := by
  rw [relayHandlePADT, Net.onPadt]
  cases found : findPlaced ps p.source p.session with
  | none =>
    obtain ⟨unknown, missing⟩ := abs.unknown found
    rw [unknown, missing]
    exact ⟨r, ps, spare, rfl, abs⟩
  | some e =>
    obtain ⟨q, role⟩ := e
    obtain ⟨member, seen, hit, entry, peer⟩ := abs.known found
    have ses : (q.entry role.peer).ses = some q.slot := rfl
    have other : (q.entry role).peer = some (q.hashAt role.peer) := rfl
    simp only [seen, hit, entry, other, peer, ses, abs.readdress_eq member, abs.table.freeSession member,
      Option.bind_eq_bind, Option.bind_some]
    obtain ⟨ps', spare', still⟩ := abs.closed member
    exact ⟨_, ps', spare', rfl, still⟩

/-- A slot is free exactly when fewer than `MaxSessions` are in use. -/
theorem Represents.full_iff {t : Table} {free : List Nat} (rep : Represents t ps free spare) :
    t.maxSessions ≤ t.numSessions ↔ free = [] := by
  have lengths := rep.slots_length
  rw [rep.count, ← List.length_eq_zero_iff]
  omega

/-- With every free slot go two hash entries. -/
theorem Represents.spare_pair {t : Table} {slot : Nat} {free : List Nat}
    (rep : Represents t ps (slot :: free) spare) : ∃ h1 h2 rest, spare = h1 :: h2 :: rest := by
  have slots := rep.slots_length
  have hashes := rep.hashes_length
  rw [List.length_cons] at slots
  match spare with
  | [] | [_] => simp at hashes; omega
  | h1 :: h2 :: rest => exact ⟨h1, h2, rest, rfl⟩

theorem relayTarget_spec {interfaces : List Interface} {i target : Interface} {allowed : Bool}
    {targetOK : Interface → Bool} {loc index : Nat} {mac : Mac}
    (found : relayTarget interfaces iface i allowed targetOK p = some (loc, index, target, mac)) :
    allowed ∧ findTag p tagRelaySessionId = some loc ∧ p.tagLen loc = myRelayTagLen ∧
      index = (tagIndex (p.tagPayload loc)).toNat ∧ interfaces[index]? = some target ∧
      targetOK target ∧ iface ≠ index ∧ mac = tagMac (p.tagPayload loc) := by
  unfold relayTarget at found
  split at found
  · cases found
  split at found
  · cases found
  split at found
  · cases found
  split at found
  · cases found
  split at found
  · cases found
  dsimp only at found
  split at found
  · cases found
  split at found
  · cases found
  split at found
  · cases found
  next side _ _ _ place tag len _ _ target' there ok =>
  simp only [Option.some.injEq, Prod.mk.injEq] at found
  obtain ⟨rfl, rfl, rfl, rfl⟩ := found
  simp only [Bool.or_eq_true, Bool.not_eq_eq_eq_not, Bool.not_true, decide_eq_true_eq, not_or,
    Bool.not_eq_false] at ok side
  exact ⟨side, tag, not_not.mp len, rfl, there, ok.1, ok.2, rfl⟩

theorem pads_refines (abs : Abstracts r n ps spare) (here : iface < r.interfaces.length) {i : Interface} :
    ∃ r' ps' spare', relayHandlePADS r iface i p size = some (r', (n.onPads iface i p size).2) ∧
      Abstracts r' (n.onPads iface i p size).1 ps' spare' := by
  rw [relayHandlePADS, Net.onPads, abs.interfaces]
  cases place : relayTarget r.interfaces iface i i.acOK Interface.clientOK p with
  | none => exact ⟨r, ps, spare, rfl, abs⟩
  | some goal =>
    obtain ⟨loc, index, target, mac⟩ := goal
    obtain ⟨-, -, -, -, there, -⟩ := relayTarget_spec place
    dsimp only
    by_cases zero : p.session = htons 0
    · rw [if_pos zero, if_pos zero]
      exact ⟨r, ps, spare, rfl, abs⟩
    · rw [if_neg zero, if_neg zero]
      cases found : findPlaced ps p.source p.session with
      | some e =>
        obtain ⟨q, role⟩ := e
        obtain ⟨member, seen, hit, entry, -⟩ := abs.known found
        have ses : (q.entry role).ses = some q.slot := rfl
        simp only [seen, hit, entry, ses, abs.table.records q member, Option.bind_eq_bind, Option.bind_some]
        exact ⟨r, ps, spare, rfl, abs⟩
      | none =>
        obtain ⟨unknown, missing⟩ := abs.unknown found
        rw [unknown, missing]
        have table := abs.table
        cases slots : n.free with
        | nil =>
          have full := abs.table.full_iff.mpr slots
          simp only [createSession, if_pos full, Option.bind_eq_bind, Option.bind_some]
          exact ⟨r, ps, spare, rfl, abs⟩
        | cons slot free =>
          rw [slots] at table
          obtain ⟨h1, h2, rest, rfl⟩ := table.spare_pair
          have room : r.table.numSessions < r.table.maxSessions := by
            have notFull : ¬r.table.maxSessions ≤ r.table.numSessions := by
              rw [table.full_iff]
              simp
            omega
          let new := placed slot h1 h2 r.epoch iface index p.source mac p.session
          have after : Represents (opened r.table new) (new :: ps) free rest := table.opened rfl
          have num : ((opened r.table new).session slot).sesNum = number slot := after.numbers slot
          rw [table.createSession room]
          simp only [Option.bind_eq_bind, Option.bind_some]
          refine ⟨{ r with table := opened r.table new }, new :: ps, rest, ?_, ⟨after, ?_, ?_, rfl,
            abs.epoch, abs.idleTimeout, abs.cleanPeriod, abs.cleanCounter, abs.pipe⟩⟩
          · rw [num]
          · rw [abs.active, abs.epoch]
            rfl
          · intro q inside role
            rcases List.mem_cons.mp inside with rfl | old
            · cases role with
              | ac => exact here
              | client => exact (List.getElem?_eq_some_iff.mp there).1
            · exact abs.valid q old role

theorem discovery_refines (abs : Abstracts r n ps spare) (here : iface < r.interfaces.length) :
    ∃ r' ps' spare',
      relayGotDiscoveryPacket r iface f = some (r', (n.onDiscovery iface r.interfaces[iface] f).2) ∧
      Abstracts r' (n.onDiscovery iface r.interfaces[iface] f).1 ps' spare' := by
  have known : r.interfaces[iface]? = some r.interfaces[iface] := List.getElem?_eq_getElem here
  simp only [relayGotDiscoveryPacket, Net.onDiscovery, known, Option.bind_eq_bind, Option.bind_some,
    abs.interfaces]
  split
  · exact ⟨r, ps, spare, rfl, abs⟩
  split
  · exact ⟨r, ps, spare, rfl, abs⟩
  split
  · exact padt_refines abs
  split
  · exact ⟨r, ps, spare, rfl, abs⟩
  split
  · exact ⟨r, ps, spare, rfl, abs⟩
  split
  · exact ⟨r, ps, spare, rfl, abs⟩
  split
  · exact pads_refines abs here
  · exact ⟨r, ps, spare, rfl, abs⟩

theorem clean_refines (abs : Abstracts r n ps spare) :
    ∃ r' ps' spare', cleanSessions r = some (r', n.clean.2) ∧ Abstracts r' n.clean.1 ps' spare' := by
  have head : r.table.activeSessions = (ps.map Placed.slot).head? := abs.table.active.head_eq
  have enough : ps.length ≤ r.table.maxSessions := by
    have lengths := abs.table.slots_length
    omega
  have table : Represents r.table ([] ++ ps) n.free spare := abs.table
  obtain ⟨t', spare', ran, still, -⟩ := table.cleanLoop r.interfaces r.epoch r.idleTimeout enough
  rw [List.nil_append] at still
  have stale : (ps.map Placed.flow).filter (Flow.stale r.epoch r.idleTimeout) =
      (ps.filter fun p => p.flow.stale r.epoch r.idleTimeout).map Placed.flow := List.filter_map ..
  have fresh : (ps.map Placed.flow).filter (fun f => !f.stale r.epoch r.idleTimeout) =
      (ps.filter fun p => !p.flow.stale r.epoch r.idleTimeout).map Placed.flow := List.filter_map ..
  refine ⟨{ r with table := t' }, ps.filter fun p => !p.flow.stale r.epoch r.idleTimeout, spare', ?_,
    ⟨?_, ?_, ?_, abs.interfaces, abs.epoch, abs.idleTimeout, abs.cleanPeriod, abs.cleanCounter, abs.pipe⟩⟩
  · simp only [cleanSessions, head, ran, Option.bind_eq_bind, Option.bind_some, Net.clean, abs.active,
      abs.epoch, abs.idleTimeout, abs.interfaces, stale, List.flatMap_map]
  · simp only [Net.clean, abs.active, abs.epoch, abs.idleTimeout, stale, List.map_map]
    exact still
  · simp only [Net.clean, abs.active, abs.epoch, abs.idleTimeout, fresh]
  · exact fun p inside => abs.valid p (List.mem_filter.mp inside).1

/-- One step of the relay is one step on the list: no null pointer is followed, the
same frames are sent, and the tables hold the sessions of the new list. -/
theorem handle_refines (abs : Abstracts r n ps spare) {e : Event} (on : e.on r.interfaces.length) :
    ∃ r' ps' spare', handle r e = some (r', (n.handle e).2) ∧ Abstracts r' (n.handle e).1 ps' spare' := by
  cases e with
  | session iface f => exact session_refines abs on
  | discovery iface f =>
    have here : iface < r.interfaces.length := on
    have known : n.interfaces[iface]? = some r.interfaces[iface] := by
      rw [abs.interfaces]
      exact List.getElem?_eq_getElem here
    simp only [Net.handle, known]
    exact discovery_refines abs here
  | clean =>
    simp only [handle, Net.handle, abs.pipe, abs.idleTimeout]
    split
    · exact ⟨r, ps, spare, rfl, abs⟩
    · have sooner : Abstracts { r with cleanCounter := 0, pipe := r.pipe - 1 }
          { n with idleTimeout := r.idleTimeout, cleanCounter := 0, pipe := r.pipe - 1 } ps spare :=
        ⟨abs.table, abs.active, abs.valid, abs.interfaces, abs.epoch, rfl, abs.cleanPeriod, rfl, rfl⟩
      split
      · exact clean_refines sooner
      · exact ⟨_, ps, spare, rfl, sooner⟩
  | alarm =>
    simp only [handle, Net.handle, abs.idleTimeout]
    split
    · exact ⟨r, ps, spare, rfl, abs⟩
    · refine ⟨_, ps, spare, rfl, ⟨abs.table, abs.active, abs.valid, abs.interfaces, ?_, rfl,
        abs.cleanPeriod, ?_, ?_⟩⟩
      · simp [alarmHandler, abs.epoch]
      · simp [alarmHandler, abs.cleanCounter]
      · simp [alarmHandler, abs.cleanCounter, abs.cleanPeriod, abs.pipe]

end Simulation

/-! ## Steps -/

theorem find_mem {active : List Flow} {mac : Mac} {num : SessionNumber} {flow : Flow} {role : Role}
    (found : find active mac num = some (flow, role)) : flow ∈ active ∧ (flow.at role).matches mac num := by
  unfold find at found
  have hit := List.find?_some found
  obtain ⟨f, inside, which⟩ := List.mem_flatMap.mp (List.mem_of_find?_eq_some found)
  simp only [List.mem_cons, List.not_mem_nil, or_false, Prod.mk.injEq] at which
  refine ⟨?_, hit⟩
  rcases which with ⟨rfl, -⟩ | ⟨rfl, -⟩ <;> exact inside

/-- All that a step can do to the sessions and the clock. -/
inductive Net.Changes (n : Net) (e : Event) : Net → Prop where
  | stay (quiet : e = .alarm → n.idleTimeout = 0) : Changes n e n
  | touch {iface : Nat} {f : Frame} {flow : Flow} {role : Role} (event : e = .session iface f)
    (found : find n.active f.packet.source f.packet.session = some (flow, role)) :
    Changes n e { n with active := n.active.map (Flow.touch flow.slot n.epoch) }
  | close {iface : Nat} {f : Frame} {flow : Flow} {role : Role} (event : e = .discovery iface f)
    (padt : f.packet.code = codePadt)
    (found : find n.active f.packet.source f.packet.session = some (flow, role)) :
    Changes n e { n with active := n.active.erase flow, free := flow.slot :: n.free }
  | create {iface slot loc index : Nat} {f : Frame} {i target : Interface} {mac : Mac} {free : List Nat}
    (event : e = .discovery iface f) (pads : f.packet.code = codePads) (here : n.interfaces[iface]? = some i)
    (place : relayTarget n.interfaces iface i i.acOK Interface.clientOK f.packet =
      some (loc, index, target, mac))
    (unknown : find n.active f.packet.source f.packet.session = none) (room : n.free = slot :: free) :
    Changes n e { n with
      active := ⟨slot, ⟨iface, f.packet.source, f.packet.session⟩, ⟨index, mac, number slot⟩, n.epoch⟩ ::
        n.active
      free := free }
  | clean (event : e = .clean) (due : 0 < n.pipe) (timeout : n.idleTimeout ≠ 0) :
    Changes n e ({ n with cleanCounter := 0, pipe := n.pipe - 1 } : Net).clean.1
  | drain (timeout : n.idleTimeout = 0) : Changes n e { n with cleanCounter := 0, pipe := n.pipe - 1 }
  | tick (event : e = .alarm) (timeout : n.idleTimeout ≠ 0) :
    Changes n e { n with
      epoch := n.epoch + 1
      cleanCounter := n.cleanCounter + 1
      pipe := if n.cleanCounter + 1 = n.cleanPeriod then n.pipe + 1 else n.pipe }

theorem onPads_changes {n : Net} {iface size : Nat} {i : Interface} {f : Frame}
    (here : n.interfaces[iface]? = some i) (pads : f.packet.code = codePads) :
    n.Changes (.discovery iface f) (n.onPads iface i f.packet size).1 := by
  unfold Net.onPads
  cases place : relayTarget n.interfaces iface i i.acOK Interface.clientOK f.packet with
  | none => exact .stay nofun
  | some goal =>
    obtain ⟨loc, index, target, mac⟩ := goal
    dsimp only
    split
    · exact .stay nofun
    · cases found : find n.active f.packet.source f.packet.session with
      | some e => exact .stay nofun
      | none =>
        cases room : n.free with
        | nil => exact .stay nofun
        | cons slot free => exact .create rfl pads here place found room

theorem handle_changes (n : Net) (e : Event) : n.Changes e (n.handle e).1 := by
  cases e with
  | session iface f =>
    simp only [Net.handle, Net.onSession]
    split
    · cases found : find n.active f.packet.source f.packet.session with
      | none => exact .stay nofun
      | some e => exact .touch rfl found
    · exact .stay nofun
  | discovery iface f =>
    simp only [Net.handle]
    cases here : n.interfaces[iface]? with
    | none => exact .stay nofun
    | some i =>
      simp only [Net.onDiscovery]
      split
      · exact .stay nofun
      split
      · exact .stay nofun
      split
      · unfold Net.onPadt
        cases found : find n.active f.packet.source f.packet.session with
        | none => exact .stay nofun
        | some e => exact .close rfl (by assumption) found
      split
      · exact .stay nofun
      split
      · exact .stay nofun
      split
      · exact .stay nofun
      split
      · exact onPads_changes here (by assumption)
      · exact .stay nofun
  | clean =>
    simp only [Net.handle]
    split
    · exact .stay nofun
    · split
      · exact .clean rfl (by omega) (by assumption)
      · exact .drain (not_not.mp (by assumption))
  | alarm =>
    simp only [Net.handle]
    split
    · exact .stay fun _ => by assumption
    · exact .tick rfl (by assumption)

theorem Net.Changes.interfaces {n n' : Net} {e : Event} (changes : n.Changes e n') :
    n'.interfaces = n.interfaces := by
  cases changes <;> rfl

theorem Net.Changes.settings {n n' : Net} {e : Event} (changes : n.Changes e n') :
    n'.idleTimeout = n.idleTimeout ∧ n'.cleanPeriod = n.cleanPeriod := by
  cases changes <;> exact ⟨rfl, rfl⟩

/-- The slots in use and the free ones. -/
def Net.slots (n : Net) : List Nat := n.active.map Flow.slot ++ n.free

/-- Slots only move between the sessions and the free list. -/
theorem Net.Changes.slots {n n' : Net} {e : Event} (changes : n.Changes e n') :
    n'.slots.Perm n.slots := by
  cases changes with
  | stay | drain | tick => exact List.Perm.refl _
  | touch => simp [Net.slots, Function.comp_def]
  | @close _ _ flow _ _ _ found =>
    have member := (find_mem found).1
    have erased : (flow.slot :: (n.active.erase flow).map Flow.slot).Perm (n.active.map Flow.slot) :=
      ((List.perm_cons_erase member).map Flow.slot).symm
    exact List.perm_middle.trans (erased.append_right n.free)
  | create _ _ _ _ _ room =>
    simp only [Net.slots, room, List.map_cons]
    exact List.perm_middle.symm
  | clean =>
    have parts := (List.filter_append_perm (Flow.stale n.epoch n.idleTimeout) n.active).map Flow.slot
    rw [List.map_append] at parts
    refine List.perm_iff_count.mpr fun a => ?_
    have count := parts.count_eq a
    simp only [Net.slots, Net.clean, List.count_append, List.count_reverse] at count ⊢
    omega

/-! ## Runs -/

theorem started_abstracts (c : Config) :
    Abstracts (started c) (Net.started c) [] (List.range (2 * c.nsess)) :=
  ⟨initRelay_represents c.some, rfl, by simp, rfl, rfl, rfl, rfl, rfl, rfl⟩

/-- From wherever the tables and the list agree, a run of the relay is a run on the list. -/
theorem run_refines {r : State} {n : Net} {ps : List Placed} {spare : List Nat} {es : List Event}
    (abs : Abstracts r n ps spare) (on : ∀ e ∈ es, e.on n.interfaces.length) (sent : List Sent) :
    ∃ r' ps' spare', run step (r, sent) es = some (r', (es.foldl Net.step (n, sent)).2) ∧
      Abstracts r' (es.foldl Net.step (n, sent)).1 ps' spare' := by
  induction es generalizing r n ps spare sent with
  | nil => exact ⟨r, ps, spare, rfl, abs⟩
  | cons e es ih =>
    obtain ⟨first, later⟩ := List.forall_mem_cons.mp on
    rw [abs.interfaces] at first
    obtain ⟨r', ps', spare', handled, after⟩ := handle_refines abs first
    have taken : step (r, sent) e = some (r', sent ++ (n.handle e).2) := by
      rw [step, handled]
      rfl
    rw [← (handle_changes n e).interfaces] at later
    obtain ⟨r'', ps'', spare'', ran, still⟩ := ih after later (sent ++ (n.handle e).2)
    exact ⟨r'', ps'', spare'', run_cons.mpr ⟨_, taken, ran⟩, still⟩

theorem run_slots (n : Net) (sent : List Sent) (es : List Event) :
    (es.foldl Net.step (n, sent)).1.slots.Perm n.slots := by
  induction es generalizing n sent with
  | nil => exact List.Perm.refl _
  | cons e es ih => exact (ih _ _).trans (handle_changes n e).slots

/-- Whatever arrives, the relay goes on: it never follows a null pointer, it sends
frame for frame what the relay on a list of sessions sends, and of its `MaxSessions`
slots and twice as many hash entries each is either with exactly one session of the
list or free. -/
theorem relay_refines (c : Config) (es : List Event) (on : ∀ e ∈ es, e.on c.interfaces.length) :
    ∃ r ps free spare,
      run step (started c, []) es = some (r, (es.foldl Net.step (Net.started c, [])).2) ∧
      ps.map Placed.flow = (es.foldl Net.step (Net.started c, [])).1.active ∧
      Represents r.table ps free spare ∧
      (ps.map Placed.slot ++ free).Perm (List.range c.nsess) ∧
      (ps.flatMap Placed.hashes ++ spare).Perm (List.range (2 * c.nsess)) := by
  obtain ⟨r, ps, spare, ran, abs⟩ := run_refines (started_abstracts c) on []
  have slots := run_slots (Net.started c) [] es
  have same : (es.foldl Net.step (Net.started c, [])).1.slots = ps.map Placed.slot ++
      (es.foldl Net.step (Net.started c, [])).1.free := by
    rw [Net.slots, abs.active, List.map_map]
    rfl
  rw [same] at slots
  have size : r.table.maxSessions = c.nsess := by
    have lengths := (abs.table.slots.symm.trans slots).length_eq
    simpa [Net.slots, Net.started] using lengths
  refine ⟨r, ps, _, spare, ran, abs.active.symm, abs.table, slots, ?_⟩
  rw [← size]
  exact abs.table.hashes

/-- A frame with these bytes behind its header. -/
def frameOf (dest source : Mac) (code : Byte) (session : SessionNumber) (bytes : List Byte) : Frame where
  packet := ⟨dest, source, 1, 1, code, session, bytes.length,
    (bytes ++ List.replicate ethDataLen 0).take ethDataLen⟩
  size := bytes.length + hdrSize
  full := by
    rw [List.length_take, List.length_append, List.length_replicate]
    omega

/-- The clients are behind the first interface, the access concentrators behind the second. -/
def smallRelay : Config where
  interfaces := [⟨true, false, ⟨2, 0, 0, 0, 0, 1⟩⟩, ⟨false, true, ⟨2, 0, 0, 0, 0, 2⟩⟩]
  nsess := 2
  idleTimeout := 600
  two := by decide
  few := by decide
  some := by decide
  most := by decide

def aClient : Mac := ⟨4, 0, 0, 0, 0, 1⟩

def aConcentrator : Mac := ⟨4, 0, 0, 0, 0, 2⟩

/-- The access concentrator grants session 7. -/
def granted : Frame :=
  frameOf ⟨2, 0, 0, 0, 0, 2⟩ aConcentrator codePads 7
    (tagHeader tagRelaySessionId myRelayTagLen ++ relayTag 0 aClient)

/-- The client uses the number it was given. -/
def hello : Frame := frameOf ⟨2, 0, 0, 0, 0, 1⟩ aClient codeSess (number 0) [0xC0, 0x21]

theorem relay_refines_small :
    ∃ r sent, run step (started smallRelay, []) [.discovery 1 granted, .session 0 hello] = some (r, sent) ∧
      sent.map Sent.interface = [0, 1] := by
  obtain ⟨r, -, -, -, ran, -⟩ := relay_refines smallRelay [.discovery 1 granted, .session 0 hello]
    (by decide)
  exact ⟨r, _, ran, rfl⟩

/-- An event that is handled is about an interface of the relay. -/
theorem handle_on {r r' : State} {e : Event} {sent : List Sent} (handled : handle r e = some (r', sent)) :
    e.on r.interfaces.length := by
  by_contra off
  cases e with
  | session iface f =>
    have missing : r.interfaces[iface]? = none := List.getElem?_eq_none (Nat.not_lt.mp off)
    simp [handle, relayGotSessionPacket, missing] at handled
  | discovery iface f =>
    have missing : r.interfaces[iface]? = none := List.getElem?_eq_none (Nat.not_lt.mp off)
    simp [handle, relayGotDiscoveryPacket, missing] at handled
  | clean => exact off trivial
  | alarm => exact off trivial

/-- The sessions in the tables have a property of the list. -/
def Tracks (inv : Net → Prop) (s : State × List Sent) : Prop :=
  ∃ n ps spare, Abstracts s.1 n ps spare ∧ inv n

theorem step_tracks {inv : Net → Prop} {s t : State × List Sent} {e : Event}
    (keep : ∀ n n', inv n → n.Changes e n' → inv n') (tracked : Tracks inv s) (taken : step s e = some t) :
    Tracks inv t := by
  obtain ⟨n, ps, spare, abs, good⟩ := tracked
  obtain ⟨⟨r, sent⟩, handled, rfl⟩ := Option.map_eq_some_iff.mp taken
  obtain ⟨r', ps', spare', refined, after⟩ := handle_refines abs (handle_on handled)
  rw [refined] at handled
  cases handled
  exact ⟨_, ps', spare', after, keep _ _ good (handle_changes n e)⟩

theorem run_tracks {inv : Net → Prop} {valid : Event → Prop} {s t : State × List Sent} {es : List Event}
    (keep : ∀ e n n', valid e → inv n → n.Changes e n' → inv n') (tracked : Tracks inv s)
    (events : ∀ e ∈ es, valid e) (ran : run step s es = some t) : Tracks inv t := by
  induction es generalizing s with
  | nil =>
    cases ran
    exact tracked
  | cons e es ih =>
    obtain ⟨first, later⟩ := List.forall_mem_cons.mp events
    obtain ⟨u, taken, rest⟩ := run_cons.mp ran
    exact ih (step_tracks (fun n n' => keep e n n' first) tracked taken) later rest

end Fdgw.Relay
