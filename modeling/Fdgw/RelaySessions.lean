import Fdgw.RelayNetwork

/-!
The two ends of a session. A frame is found by its source address and session
number alone, so the relay keeps sessions apart as long as no two ends have the
same pair. The numbers it hands out are all different; those of the access
concentrators are taken as they come.
-/
namespace Fdgw.Relay
open Pppoe Links Runs

/-! ## Numbers -/

theorem htons_htons (x : BitVec 16) : htons (htons x) = x := by
  apply BitVec.eq_of_getLsbD_eq
  intro i hi
  have past : x.getLsbD (8 + (8 + i)) = false := BitVec.getLsbD_of_ge x _ (by omega)
  by_cases low : i < 8
  · have back : 8 + i - 8 = i := by omega
    have high : 8 + i < 16 := by omega
    simp [htons, low, high, back, past, hi]
  · have small : i - 8 < 8 := by omega
    have back : 8 + (i - 8) = i := by omega
    have out : ¬8 + i < 16 := by omega
    simp [htons, low, hi, small, back, out, past]

theorem number_injective {i j : Nat} (first : i < 65535) (second : j < 65535)
    (same : number i = number j) : i = j := by
  have numbers := congrArg htons same
  simp only [number, htons_htons] at numbers
  have values := congrArg BitVec.toNat numbers
  simp only [BitVec.toNat_ofNat] at values
  omega

/-! ## Ends -/

@[simp] theorem Role.peer_peer (role : Role) : role.peer.peer = role := by
  cases role <;> rfl

theorem Role.eq_or_peer (role side : Role) : side = role ∨ side = role.peer := by
  cases role <;> cases side <;> simp [Role.peer]

theorem matches_iff {e : End} {mac : Mac} {num : SessionNumber} :
    e.matches mac num ↔ mac = e.mac ∧ num = e.num := by
  simp [End.matches]

/-- What a frame from this end is found by. -/
def End.key (e : End) : Mac × SessionNumber := (e.mac, e.num)

theorem find_none {active : List Flow} {mac : Mac} {num : SessionNumber} {f : Flow}
    (unknown : find active mac num = none) (member : f ∈ active) (role : Role) :
    ¬(f.at role).matches mac num := by
  have nowhere := List.find?_eq_none.mp unknown (f, role)
  refine nowhere (List.mem_flatMap.mpr ⟨f, member, ?_⟩)
  cases role <;> simp

/-- The frame opens sessions only between a machine that is no client and one that is. -/
def Event.apart (client : Mac → Prop) : Event → Prop
  | .discovery _ f => f.packet.code = codePads → ¬client f.packet.source ∧
    ∀ loc, findTag f.packet tagRelaySessionId = some loc → client (tagMac (f.packet.tagPayload loc))
  | _ => True

/-- A session lies between two interfaces, on the side each is for. -/
structure Flow.Sides (interfaces : List Interface) (f : Flow) : Prop where
  ac : ∃ i, interfaces[f.ac.interface]? = some i ∧ i.acOK
  client : ∃ i, interfaces[f.client.interface]? = some i ∧ i.clientOK
  different : f.ac.interface ≠ f.client.interface

/-- One interface is for access concentrators and the other for clients. -/
def opposite (interfaces : List Interface) (a b : Nat) : Prop :=
  a ≠ b ∧ ∃ i j, interfaces[a]? = some i ∧ interfaces[b]? = some j ∧
    (i.acOK ∧ j.clientOK ∨ i.clientOK ∧ j.acOK)

theorem Flow.Sides.opposite {interfaces : List Interface} {f : Flow} (sides : f.Sides interfaces)
    (role : Role) : opposite interfaces (f.at role).interface (f.at role.peer).interface := by
  obtain ⟨⟨i, ac, acOK⟩, ⟨j, client, clientOK⟩, different⟩ := sides
  cases role with
  | ac => exact ⟨different, i, j, ac, client, Or.inl ⟨acOK, clientOK⟩⟩
  | client => exact ⟨different.symm, j, i, client, ac, Or.inr ⟨clientOK, acOK⟩⟩

/-- No two ends have the same address and number. -/
structure Separate (client : Mac → Prop) (nsess : Nat) (n : Net) : Prop where
  slots : n.slots.Perm (List.range nsess)
  numbers : ∀ f ∈ n.active, f.client.num = number f.slot
  clients : ∀ f ∈ n.active, client f.client.mac
  others : ∀ f ∈ n.active, ¬client f.ac.mac
  concentrators : (n.active.map fun f => f.ac.key).Nodup
  sides : ∀ f ∈ n.active, f.Sides n.interfaces

section Separate

variable {client : Mac → Prop} {nsess : Nat} {n n' : Net} {f g : Flow} {mac : Mac}
  {num : SessionNumber} {a b : Role}

/-- Fewer sessions are still separate. -/
theorem Separate.sublist (sep : Separate client nsess n) (slots : n'.slots.Perm n.slots)
    (fewer : n'.active.Sublist n.active) (same : n'.interfaces = n.interfaces) :
    Separate client nsess n' := by
  refine ⟨slots.trans sep.slots, ?_, ?_, ?_, sep.concentrators.sublist (fewer.map _), ?_⟩
  · exact fun f member => sep.numbers f (fewer.subset member)
  · exact fun f member => sep.clients f (fewer.subset member)
  · exact fun f member => sep.others f (fewer.subset member)
  · exact fun f member => same ▸ sep.sides f (fewer.subset member)

theorem Flow.touch_sides {interfaces : List Interface} {slot : Nat} {now : BitVec 32}
    (sides : f.Sides interfaces) : (f.touch slot now).Sides interfaces := by
  unfold Flow.touch
  split
  · exact ⟨sides.ac, sides.client, sides.different⟩
  · exact sides

theorem Separate.touch (sep : Separate client nsess n) (slot : Nat) (now : BitVec 32) :
    Separate client nsess { n with active := n.active.map (Flow.touch slot now) } := by
  have ac (f : Flow) : (f.touch slot now).ac = f.ac := f.touch_at .ac
  have cli (f : Flow) : (f.touch slot now).client = f.client := f.touch_at .client
  have slots : Net.slots { n with active := n.active.map (Flow.touch slot now) } = n.slots := by
    simp [Net.slots, Function.comp_def]
  refine ⟨slots ▸ sep.slots, ?_, ?_, ?_, ?_, ?_⟩
  · simpa [cli] using sep.numbers
  · simpa [cli] using sep.clients
  · simpa [ac] using sep.others
  · simpa [Function.comp_def, ac] using sep.concentrators
  · intro f member
    obtain ⟨f, before, rfl⟩ := List.mem_map.mp member
    exact Flow.touch_sides (sep.sides f before)

theorem Separate.keep {e : Event} (sep : Separate client nsess n) (apart : e.apart client)
    (changes : n.Changes e n') : Separate client nsess n' := by
  have slots := changes.slots
  have same := changes.interfaces
  cases changes with
  | stay => exact sep
  | drain | tick => exact sep.sublist slots (List.Sublist.refl _) same
  | @touch _ _ flow => exact sep.touch flow.slot n.epoch
  | close => exact sep.sublist slots List.erase_sublist same
  | clean => exact sep.sublist slots List.filter_sublist same
  | @create iface slot loc index f i target mac free event pads here place unknown room =>
    obtain ⟨acOK, tag, -, -, there, clientOK, different, rfl⟩ := relayTarget_spec place
    subst event
    obtain ⟨notClient, isClient⟩ := apart pads
    refine ⟨slots.trans sep.slots, ?_, ?_, ?_, ?_, ?_⟩
    · exact List.forall_mem_cons.mpr ⟨rfl, sep.numbers⟩
    · exact List.forall_mem_cons.mpr ⟨isClient loc tag, sep.clients⟩
    · exact List.forall_mem_cons.mpr ⟨notClient, sep.others⟩
    · refine List.nodup_cons.mpr ⟨fun taken => ?_, sep.concentrators⟩
      obtain ⟨g, member, same⟩ := List.mem_map.mp taken
      have equal := Prod.mk.injEq .. ▸ same
      exact find_none unknown member .ac (matches_iff.mpr ⟨equal.1.symm, equal.2.symm⟩)
    · exact List.forall_mem_cons.mpr ⟨⟨⟨i, here, acOK⟩, ⟨target, there, clientOK⟩, different⟩, sep.sides⟩

theorem Separate.unique (sep : Separate client nsess n) (few : nsess ≤ 65534) (first : f ∈ n.active)
    (second : g ∈ n.active) (hit : (f.at a).matches mac num) (also : (g.at b).matches mac num) :
    f = g ∧ a = b := by
  rw [matches_iff] at hit also
  have macs : (f.at a).mac = (g.at b).mac := hit.1.symm.trans also.1
  have nums : (f.at a).num = (g.at b).num := hit.2.symm.trans also.2
  have nodup : (n.active.map Flow.slot).Nodup :=
    (sep.slots.nodup_iff.mpr List.nodup_range).of_append_left
  have small {f : Flow} (member : f ∈ n.active) : f.slot < 65535 := by
    have listed := sep.slots.subset (List.mem_append_left _ (List.mem_map_of_mem member))
    have bound := List.mem_range.mp listed
    omega
  cases a with
  | ac =>
    cases b with
    | ac =>
      have same : f.ac.key = g.ac.key := Prod.ext macs nums
      exact ⟨List.inj_on_of_nodup_map sep.concentrators first second same, rfl⟩
    | client => exact absurd (macs ▸ sep.clients g second) (sep.others f first)
  | client =>
    cases b with
    | ac => exact absurd (macs ▸ sep.clients f first) (sep.others g second)
    | client =>
      have slots := nums
      change f.client.num = g.client.num at slots
      rw [sep.numbers f first, sep.numbers g second] at slots
      exact ⟨List.inj_on_of_nodup_map nodup first second
        (number_injective (small first) (small second) slots), rfl⟩

/-- The end a frame comes from is the only one with its address and number. -/
theorem Separate.find_eq (sep : Separate client nsess n) (few : nsess ≤ 65534) (member : f ∈ n.active)
    (hit : (f.at a).matches mac num) : find n.active mac num = some (f, a) := by
  cases found : find n.active mac num with
  | none => exact absurd hit (find_none found member a)
  | some e =>
    obtain ⟨g, b⟩ := e
    obtain ⟨there, also⟩ := find_mem found
    obtain ⟨rfl, rfl⟩ := sep.unique few there member also hit
    rfl

end Separate

/-! ## Relayed frames -/

section Relayed

variable {r r' : State} {n : Net} {ps : List Placed} {spare : List Nat} {iface : Nat} {f : Frame} {s : Sent}

/-- The frame for an end, as the list of sessions has it. -/
def relayed (n : Net) (e : End) (f : Frame) : Sent :=
  ⟨e.interface, .session, forward n.interfaces e f.packet, f.size⟩

theorem onSession_known {flow : Flow} {role : Role} (ok : accepted n.interfaces iface f)
    (found : find n.active f.packet.source f.packet.session = some (flow, role)) :
    n.onSession iface f = ({ n with active := n.active.map (Flow.touch flow.slot n.epoch) },
      [relayed n (flow.at role.peer) f]) := by
  simp only [Net.onSession, if_pos ok, found]
  rfl

theorem onSession_sent (out : (n.onSession iface f).2 = [s]) :
    accepted n.interfaces iface f ∧ ∃ flow role,
      find n.active f.packet.source f.packet.session = some (flow, role) ∧
      s = relayed n (flow.at role.peer) f := by
  by_cases ok : accepted n.interfaces iface f
  · refine ⟨ok, ?_⟩
    cases found : find n.active f.packet.source f.packet.session with
    | none => simp [Net.onSession, found] at out
    | some e =>
      obtain ⟨flow, role⟩ := e
      rw [onSession_known ok found] at out
      exact ⟨flow, role, rfl, (List.cons.inj out).1.symm⟩
  · simp [Net.onSession, ok] at out

/-- What the tables send, the list sends. -/
theorem Abstracts.handled {e : Event} {out : List Sent} (abs : Abstracts r n ps spare)
    (taken : handle r e = some (r', out)) :
    out = (n.handle e).2 ∧ ∃ ps' spare', Abstracts r' (n.handle e).1 ps' spare' := by
  obtain ⟨r'', ps', spare', refined, after⟩ := handle_refines abs (handle_on taken)
  rw [refined] at taken
  cases taken
  exact ⟨rfl, ps', spare', after⟩

end Relayed

section Runs

variable {c : Config} {client : Mac → Prop} {es : List Event} {r r' : State} {sent : List Sent}
  {iface : Nat} {f : Frame} {s : Sent}

theorem started_separate (c : Config) : Separate client c.nsess (Net.started c) :=
  ⟨List.Perm.refl _, by simp [Net.started], by simp [Net.started], by simp [Net.started],
    by simp [Net.started], by simp [Net.started]⟩

/-- Every run keeps the ends of the sessions separate. -/
theorem run_separate (apart : ∀ e ∈ es, e.apart client)
    (ran : run step (started c, []) es = some (r, sent)) :
    ∃ n ps spare, Abstracts r n ps spare ∧ Separate client c.nsess n ∧ n.interfaces = c.interfaces ∧
      n.idleTimeout = c.idleTimeout := by
  have start : Tracks (fun n => Separate client c.nsess n ∧ n.interfaces = c.interfaces ∧
      n.idleTimeout = c.idleTimeout) (started c, []) :=
    ⟨_, _, _, started_abstracts c, started_separate c, rfl, rfl⟩
  refine run_tracks (fun e n n' valid good changes => ?_) start apart ran
  exact ⟨good.1.keep valid changes, changes.interfaces.trans good.2.1, changes.settings.1.trans good.2.2⟩

/-- A relayed frame keeps its payload, and the relay is a pairing of ends: an answer
from where the frame went comes back to where it came from, between an interface for
access concentrators and another for clients, and no other end's frames go there. -/
theorem relay_pairs_ends (apart : ∀ e ∈ es, e.apart client)
    (ran : run step (started c, []) es = some (r, sent))
    (forth : handle r (.session iface f) = some (r', [s])) :
    s.packet.payload = f.packet.payload ∧ s.packet.length = f.packet.length ∧ s.size = f.size ∧
    (∀ back g, back < c.interfaces.length → accepted c.interfaces back g →
      g.packet.source = s.packet.dest → g.packet.session = s.packet.session →
      ∃ r'' t, handle r' (.session back g) = some (r'', [t]) ∧ t.packet.dest = f.packet.source ∧
        t.packet.session = f.packet.session ∧ opposite c.interfaces t.interface s.interface) ∧
    (∀ other g r'' t, handle r (.session other g) = some (r'', [t]) →
      t.packet.dest = s.packet.dest → t.packet.session = s.packet.session →
      g.packet.source = f.packet.source ∧ g.packet.session = f.packet.session) := by
  obtain ⟨n, ps, spare, abs, sep, same, -⟩ := run_separate apart ran
  obtain ⟨out, ps', spare', after⟩ := abs.handled forth
  obtain ⟨ok, flow, role, found, rfl⟩ := onSession_sent out.symm
  obtain ⟨member, hit⟩ := find_mem found
  rw [matches_iff] at hit
  have few := c.most
  refine ⟨rfl, rfl, rfl, ?_, ?_⟩
  · intro back g here fine source session
    let n' := { n with active := n.active.map (Flow.touch flow.slot n.epoch) }
    have moved : (n.handle (.session iface f)).1 = n' := congrArg Prod.fst (onSession_known ok found)
    rw [moved] at after
    have touched : flow.touch flow.slot n.epoch ∈ n'.active := List.mem_map_of_mem member
    have there : find n'.active g.packet.source g.packet.session =
        some (flow.touch flow.slot n.epoch, role.peer) := by
      refine (sep.touch flow.slot n.epoch).find_eq few touched ?_
      rw [Flow.touch_at, matches_iff]
      exact ⟨source, session⟩
    have known : n'.handle (.session back g) = _ := onSession_known (same ▸ fine) there
    have on : Event.on r'.interfaces.length (.session back g) := by
      rw [← after.interfaces, show n'.interfaces = c.interfaces from same]
      exact here
    obtain ⟨r'', -, -, answered, -⟩ := handle_refines after on
    rw [known, Role.peer_peer, Flow.touch_at] at answered
    exact ⟨r'', _, answered, hit.1.symm, hit.2.symm, same ▸ (sep.sides flow member).opposite role⟩
  · intro other g r'' t also dest session
    obtain ⟨out', -⟩ := abs.handled also
    obtain ⟨-, flow', role', found', rfl⟩ := onSession_sent out'.symm
    obtain ⟨member', hit'⟩ := find_mem found'
    rw [matches_iff] at hit'
    obtain ⟨rfl, peers⟩ := sep.unique few member member' (a := role.peer) (b := role'.peer)
      (matches_iff.mpr ⟨dest, session⟩) (matches_iff.mpr ⟨rfl, rfl⟩)
    have roles : role = role' := by
      rw [← role.peer_peer, peers, role'.peer_peer]
    subst roles
    exact ⟨hit'.1.trans hit.1.symm, hit'.2.trans hit.2.symm⟩

/-- The sessions of the small relay are between its client and its access concentrator. -/
theorem granted_apart : ∀ e ∈ [Event.discovery 1 granted], e.apart (· = aClient) := by
  intro e member
  obtain rfl := List.mem_singleton.mp member
  intro _
  refine ⟨by decide, fun loc found => ?_⟩
  have place : findTag granted.packet tagRelaySessionId = some 0 := by decide +kernel
  rw [place] at found
  cases found
  decide +kernel

/-- The small relay with a session. -/
def smallNet : Net := ([.discovery 1 granted].foldl Net.step (Net.started smallRelay, [])).1

theorem granted_handle {e : Event} {out : List Sent} (on : e.on smallRelay.interfaces.length)
    (sent : (smallNet.handle e).2 = out) :
    ∃ r sent r', run step (started smallRelay, []) [.discovery 1 granted] = some (r, sent) ∧
      handle r e = some (r', out) := by
  obtain ⟨r, ps, spare, ran, abs⟩ := run_refines (started_abstracts smallRelay)
    (show ∀ e ∈ [Event.discovery 1 granted], _ by decide) []
  have same : smallNet.interfaces = smallRelay.interfaces := by decide +kernel
  rw [← same, show smallNet.interfaces = r.interfaces from abs.interfaces] at on
  obtain ⟨r', -, -, handled, -⟩ := handle_refines abs on
  exact ⟨r, _, r', ran, sent ▸ handled⟩

/-- The frame of the client on its way. -/
def helloSent : Sent :=
  ⟨1, .session, { hello.packet with session := 7, source := ⟨2, 0, 0, 0, 0, 2⟩, dest := aConcentrator },
    hello.size⟩

theorem relay_pairs_ends_small :
    ∃ r sent r', run step (started smallRelay, []) [.discovery 1 granted] = some (r, sent) ∧
      handle r (.session 0 hello) = some (r', [helloSent]) ∧
      ∀ back g r'' t, handle r (.session back g) = some (r'', [t]) → t.packet.dest = aConcentrator →
        t.packet.session = 7 → g.packet.source = aClient := by
  obtain ⟨r, sent, r', ran, handled⟩ := granted_handle (e := .session 0 hello) (by decide)
    (show _ = [helloSent] by decide +kernel)
  obtain ⟨-, -, -, -, only⟩ := relay_pairs_ends granted_apart ran handled
  exact ⟨r, sent, r', ran, handled, fun back g r'' t also dest session =>
    (only back g r'' t also dest session).1⟩

end Runs

end Fdgw.Relay
