import Fdgw.RelaySessions
import Mathlib.Tactic.IntervalCases

/-!
Discovery through the relay. The relay keeps no record of it: the tag it puts into
a PADI says where the frame came from, and each frame of the exchange carries the
way back for the next one. The peers have to send the tag back as it was.
-/
namespace Fdgw.Relay
open Pppoe Links Runs

/-! ## The relay's tag -/

/-- The frame has the relay's tag at `loc`, with this interface and address. -/
structure TaggedAt (p : Packet) (loc index : Nat) (mac : Mac) : Prop where
  found : findTag p tagRelaySessionId = some loc
  len : p.tagLen loc = myRelayTagLen
  payload : p.tagPayload loc = relayTag index mac

def Tagged (p : Packet) (index : Nat) (mac : Mac) : Prop := ∃ loc, TaggedAt p loc index mac

section Tags

variable {p q : Packet} {loc index iface : Nat} {mac : Mac} {interfaces : List Interface} {i : Interface}
  {size : Nat} {s : Sent}

end Tags

/-! ## The exchange -/

/-- The frame is an answer to `s`: whole, to the interface that sent `s`, and with the
relay's tag of `s`. -/
structure Answers (f : Frame) (code : Byte) (s : Sent) : Prop where
  code : f.packet.code = code
  whole : f.packet.length + hdrSize ≤ f.size
  unicast : f.packet.source.notUnicast = false
  dest : f.packet.dest = s.packet.source
  tag : ∃ loc loc', findTag f.packet tagRelaySessionId = some loc ∧
    findTag s.packet tagRelaySessionId = some loc' ∧ f.packet.tagLen loc = s.packet.tagLen loc' ∧
    f.packet.tagPayload loc = s.packet.tagPayload loc'

theorem Answers.tagged {f : Frame} {code : Byte} {s : Sent} {index : Nat} {mac : Mac}
    (answers : Answers f code s) (tagged : Tagged s.packet index mac) : Tagged f.packet index mac := by
  obtain ⟨loc, loc', found, there, len, payload⟩ := answers.tag
  obtain ⟨place, tag⟩ := tagged
  have same : loc' = place := Option.some.inj (there.symm.trans tag.found)
  subst same
  exact ⟨loc, found, len.trans tag.len, payload.trans tag.payload⟩

section Exchange

variable {r r' : State} {f : Frame} {s : Sent} {sent : List Sent} {iface index : Nat} {mac : Mac}
  {i target : Interface}

theorem Answers.version {code : Byte} (answers : Answers f code s) : f.packet.ver = 1 ∧ f.packet.type = 1 := by
  obtain ⟨loc, -, found, -⟩ := answers.tag
  obtain ⟨ver, type, -⟩ := findTag_spec found
  exact ⟨ver, type⟩

end Exchange

section Small

end Small

end Fdgw.Relay
