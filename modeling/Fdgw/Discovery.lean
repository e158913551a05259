import Fdgw.Pppoe
import Fdgw.Runs

/-!
The client's discovery of `src/gnu/rp-pppoe/src/discovery.c`. What the kernel
answers to `select` is the event: a packet arrives, or the timeout passes.
-/
namespace Fdgw.Discovery
open Pppoe Runs

/-! ## The code -/

def tagServiceName : Nat := 0x0101
def tagAcName : Nat := 0x0102
def tagAcCookie : Nat := 0x0104
def tagServiceNameError : Nat := 0x0201
def tagAcSystemError : Nat := 0x0202

def maxPadiAttempts : Nat := 3
def padiTimeout : Nat := 5

/-- The settings of `conn`. The Host-Uniq tag carries the process number, if it is used. -/
structure Settings where
  myEth : Mac
  acName : Option (List Byte)
  serviceName : Option (List Byte)
  hostUniq : Option (List Byte)
  printACNames : Bool
  deriving DecidableEq, Repr

/-- `discoveryState`, with the attempts and the timeout of the loop around it. -/
inductive Phase where
  | sentPADI (padiAttempts timeout : Nat)
  | sentPADR (padrAttempts timeout : Nat)
  | session
  | ended (message : String)
  deriving DecidableEq, Repr

/-- What discovery finds out, with the criteria of the present wait for a PADO. -/
structure Client where
  peerEth : Mac
  session : SessionNumber
  cookie : Option (List Byte)
  relayId : Option (List Byte)
  numPADOs : Nat
  acNameOK : Bool
  serviceNameOK : Bool
  phase : Phase
  sent : List Packet
  deriving DecidableEq, Repr

inductive Event where
  | timedOut
  | packet (p : Packet) (len : Nat)
  deriving DecidableEq, Repr

/-- The loop of `parsePacket`; it moves on by at least `TAG_HDR_SIZE`. -/
def tagsFrom (p : Packet) : Nat → Nat → List (Nat × List Byte)
  | 0, _ => []
  | fuel + 1, cur =>
    if cur < p.length then
      if p.tagType cur = tagEndOfList then []
      else if p.length < cur + p.tagLen cur + tagHdrSize then []
      else (p.tagType cur, p.tagPayload cur) :: tagsFrom p fuel (cur + tagHdrSize + p.tagLen cur)
    else []

/-- The tags that `parsePacket` hands to its callback. -/
def tags (p : Packet) : List (Nat × List Byte) :=
  if p.ver ≠ 1 then []
  else if p.type ≠ 1 then []
  else if ethDataLen - 6 < p.length then []
  else tagsFrom p p.length 0

section Code

variable (conf : Settings)

def packetIsForMe (p : Packet) : Bool :=
  match conf.hostUniq with
  | none => true
  | some pid => (tags p).any fun tag => tag.1 = tagHostUniq && tag.2 = pid

def parsePADOTags (c : Client) (tag : Nat × List Byte) : Except String Client :=
  if tag.1 = tagAcName then .ok { c with acNameOK := c.acNameOK || conf.acName = some tag.2 }
  else if tag.1 = tagServiceName then .ok { c with serviceNameOK := c.serviceNameOK || conf.serviceName = some tag.2 }
  else if tag.1 = tagAcCookie then .ok { c with cookie := some tag.2 }
  else if tag.1 = tagRelaySessionId then .ok { c with relayId := some tag.2 }
  else if conf.printACNames then .ok c
  else if tag.1 = tagServiceNameError then .error "PADO: Service-Name-Error"
  else if tag.1 = tagAcSystemError then .error "PADO: System-Error"
  else if tag.1 = tagGenericError then .error "PADO: Generic-Error"
  else .ok c

def parsePADSTags (c : Client) (tag : Nat × List Byte) : Except String Client :=
  if tag.1 = tagServiceNameError then .error "PADS: Service-Name-Error"
  else if tag.1 = tagAcSystemError then .error "PADS: System-Error"
  else if tag.1 = tagGenericError then .error "PADS: Generic-Error"
  else if tag.1 = tagRelaySessionId then .ok { c with relayId := some tag.2 }
  else .ok c

def tag (kind : Nat) (bytes : List Byte) : List Byte := tagHeader kind bytes.length ++ bytes

def optionalTag (kind : Nat) : Option (List Byte) → List Byte
  | none => []
  | some bytes => tag kind bytes

/-- A packet with these tags; one that would be too long is not sent. -/
def sendTags (c : Client) (code : Byte) (dest : Mac) (payload : List Byte) : Client :=
  if maxPppoePayload < payload.length then c
  else
    { c with
      sent := c.sent ++
        [{ dest, source := conf.myEth, ver := 1, type := 1, code, session := 0, length := payload.length, payload }] }

def sendPADI (c : Client) : Client :=
  sendTags conf c codePadi ⟨0xFF, 0xFF, 0xFF, 0xFF, 0xFF, 0xFF⟩
    (tag tagServiceName (conf.serviceName.getD []) ++ optionalTag tagHostUniq conf.hostUniq)

def sendPADR (c : Client) : Client :=
  sendTags conf c codePadr c.peerEth
    (tag tagServiceName (conf.serviceName.getD []) ++ optionalTag tagHostUniq conf.hostUniq ++
      optionalTag tagAcCookie c.cookie ++ optionalTag tagRelaySessionId c.relayId)

/-- The next turn of the first loop of `discovery`, up to its `select`. -/
def tryPADI (c : Client) (padiAttempts timeout : Nat) : Client :=
  if padiAttempts > maxPadiAttempts then { c with phase := .ended "Timeout waiting for PADO packets" }
  else
    { sendPADI conf c with
      acNameOK := conf.acName.isNone
      serviceNameOK := conf.serviceName.isNone
      phase := .sentPADI padiAttempts timeout }

/-- The next turn of the second loop. -/
def tryPADR (c : Client) (padrAttempts timeout : Nat) : Client :=
  if padrAttempts > maxPadiAttempts then { c with phase := .ended "Timeout waiting for PADS packets" }
  else { sendPADR conf c with phase := .sentPADR padrAttempts timeout }

/-- One packet in `waitForPADO`. -/
def waitForPADO (c : Client) (p : Packet) (len : Nat) : Client :=
  if p.length + hdrSize > len then c
  else if !packetIsForMe conf p then c
  else if p.code ≠ codePado then c
  else if p.source.notUnicast then c
  else
    match (tags p).foldlM (parsePADOTags conf) { c with numPADOs := c.numPADOs + 1 } with
    | .error message => { c with phase := .ended message }
    | .ok c =>
      -- The names that earlier offers of this wait had still count.
      if c.acNameOK && c.serviceNameOK then
        if conf.printACNames then { c with peerEth := p.source }
        else tryPADR conf { c with peerEth := p.source } 1 padiTimeout
      else c

/-- One packet in `waitForPADS`. -/
def waitForPADS (c : Client) (p : Packet) (len : Nat) : Client :=
  if p.length + hdrSize > len then c
  else if p.source ≠ c.peerEth then c
  else if !packetIsForMe conf p then c
  else if p.code ≠ codePads then c
  else
    match (tags p).foldlM parsePADSTags c with
    | .error message => { c with phase := .ended message }
    | .ok c => { c with session := p.session, phase := .session }

def step (c : Client) (event : Event) : Client :=
  match c.phase, event with
  | .sentPADI padiAttempts timeout, .timedOut =>
    -- A probe for names is over once there were offers.
    if conf.printACNames && c.numPADOs ≠ 0 then { c with phase := .ended "" }
    else tryPADI conf c (padiAttempts + 1) (if conf.printACNames then timeout else timeout * 2)
  | .sentPADI _ _, .packet p len => waitForPADO conf c p len
  | .sentPADR padrAttempts timeout, .timedOut => tryPADR conf c (padrAttempts + 1) (timeout * 2)
  | .sentPADR _ _, .packet p len => waitForPADS conf c p len
  | _, _ => c

/-- The connection starts out zeroed. -/
def started : Client :=
  tryPADI conf
    { peerEth := ⟨0, 0, 0, 0, 0, 0⟩, session := 0, cookie := none, relayId := none, numPADOs := 0, acNameOK := false,
      serviceNameOK := false, phase := .ended "", sent := [] } 1 padiTimeout

def discovery (events : List Event) : Client := events.foldl (step conf) (started conf)

end Code

/-- More fuel than bytes changes nothing. -/
theorem tagsFrom_fuel {p : Packet} {fuel more cur : Nat} (enough : p.length ≤ cur + fuel) (larger : fuel ≤ more) :
    tagsFrom p more cur = tagsFrom p fuel cur := by
  induction fuel generalizing cur more with
  | zero =>
    cases more with
    | zero => rfl
    | succ more => rw [tagsFrom, tagsFrom, if_neg (by omega)]
  | succ fuel ih =>
    cases more with
    | zero => omega
    | succ more =>
      rw [tagsFrom, tagsFrom, ih (by unfold tagHdrSize; omega) (by omega)]

/-! ## What the client has seen -/

section Seen

variable {conf : Settings} {events : List Event} {c d : Client} {p : Packet} {e : Event}

/-- A PADO that counts. -/
structure Offered (conf : Settings) (events : List Event) (p : Packet) : Prop where
  received : ∃ len, Event.packet p len ∈ events ∧ p.length + hdrSize ≤ len
  forMe : packetIsForMe conf p = true
  code : p.code = codePado
  unicast : p.source.notUnicast = false

/-- A PADS that counts. -/
structure Confirmed (conf : Settings) (events : List Event) (p : Packet) : Prop where
  received : ∃ len, Event.packet p len ∈ events ∧ p.length + hdrSize ≤ len
  forMe : packetIsForMe conf p = true
  code : p.code = codePads

/-- Some offer carries the name that is asked for. -/
def Named (conf : Settings) (events : List Event) (kind : Nat) (name : Option (List Byte)) : Prop :=
  ∀ bytes, name = some bytes → ∃ p, Offered conf events p ∧ (kind, bytes) ∈ tags p

theorem Offered.later (offered : Offered conf events p) : Offered conf (events ++ [e]) p := by
  obtain ⟨len, member, whole⟩ := offered.received
  exact ⟨⟨len, List.mem_append_left _ member, whole⟩, offered.forMe, offered.code, offered.unicast⟩

theorem Confirmed.later (confirmed : Confirmed conf events p) : Confirmed conf (events ++ [e]) p := by
  obtain ⟨len, member, whole⟩ := confirmed.received
  exact ⟨⟨len, List.mem_append_left _ member, whole⟩, confirmed.forMe, confirmed.code⟩

theorem Named.later {kind : Nat} {name : Option (List Byte)} (named : Named conf events kind name) :
    Named conf (events ++ [e]) kind name := by
  intro bytes same
  obtain ⟨p, offered, member⟩ := named bytes same
  exact ⟨p, offered.later, member⟩

theorem named_none (kind : Nat) {name : Option (List Byte)} (unset : name.isNone = true) :
    Named conf events kind name := by
  rintro bytes rfl
  cases unset

/-- What the tags of a PADO may change. -/
structure Parsed (conf : Settings) (found : List (Nat × List Byte)) (c d : Client) : Prop where
  peerEth : d.peerEth = c.peerEth
  phase : d.phase = c.phase
  sent : d.sent = c.sent
  acName : d.acNameOK = true → c.acNameOK = true ∨ ∃ bytes, conf.acName = some bytes ∧ (tagAcName, bytes) ∈ found
  serviceName : d.serviceNameOK = true →
    c.serviceNameOK = true ∨ ∃ bytes, conf.serviceName = some bytes ∧ (tagServiceName, bytes) ∈ found

theorem parsePADOTags_parsed {t : Nat × List Byte} (read : parsePADOTags conf c t = .ok d) : Parsed conf [t] c d := by
  obtain ⟨kind, bytes⟩ := t
  unfold parsePADOTags at read
  split at read
  · next name =>
    cases read
    refine ⟨rfl, rfl, rfl, fun ok => ?_, .inl⟩
    rcases Bool.or_eq_true_iff.mp ok with before | here
    · exact .inl before
    · exact .inr ⟨bytes, of_decide_eq_true here, by rw [← name]; exact List.mem_singleton_self _⟩
  split at read
  · next name =>
    cases read
    refine ⟨rfl, rfl, rfl, .inl, fun ok => ?_⟩
    rcases Bool.or_eq_true_iff.mp ok with before | here
    · exact .inl before
    · exact .inr ⟨bytes, of_decide_eq_true here, by rw [← name]; exact List.mem_singleton_self _⟩
  split at read
  · cases read
    exact ⟨rfl, rfl, rfl, .inl, .inl⟩
  split at read
  · cases read
    exact ⟨rfl, rfl, rfl, .inl, .inl⟩
  split at read
  · cases read
    exact ⟨rfl, rfl, rfl, .inl, .inl⟩
  split at read
  · cases read
  split at read
  · cases read
  split at read
  · cases read
  · cases read
    exact ⟨rfl, rfl, rfl, .inl, .inl⟩

theorem Parsed.trans {found rest : List (Nat × List Byte)} {b : Client} (first : Parsed conf found b c)
    (second : Parsed conf rest c d) : Parsed conf (found ++ rest) b d := by
  refine ⟨second.peerEth.trans first.peerEth, second.phase.trans first.phase, second.sent.trans first.sent,
    fun ok => ?_, fun ok => ?_⟩
  · rcases second.acName ok with before | ⟨bytes, name, member⟩
    · exact (first.acName before).imp_right fun ⟨bytes, name, member⟩ =>
        ⟨bytes, name, List.mem_append_left _ member⟩
    · exact .inr ⟨bytes, name, List.mem_append_right _ member⟩
  · rcases second.serviceName ok with before | ⟨bytes, name, member⟩
    · exact (first.serviceName before).imp_right fun ⟨bytes, name, member⟩ =>
        ⟨bytes, name, List.mem_append_left _ member⟩
    · exact .inr ⟨bytes, name, List.mem_append_right _ member⟩

theorem parsed_all {found : List (Nat × List Byte)} (read : found.foldlM (parsePADOTags conf) c = .ok d) :
    Parsed conf found c d := by
  induction found generalizing c with
  | nil =>
    cases read
    exact ⟨rfl, rfl, rfl, .inl, .inl⟩
  | cons t found ih =>
    rw [List.foldlM_cons] at read
    cases first : parsePADOTags conf c t with
    | error message =>
      rw [first] at read
      cases read
    | ok b =>
      rw [first] at read
      exact (parsePADOTags_parsed first).trans (ih read)

/-- The tags of a PADS change the relay's tag only. -/
theorem parsePADSTags_keeps {t : Nat × List Byte} (read : parsePADSTags c t = .ok d) :
    ∃ relayId, d = { c with relayId := relayId } := by
  unfold parsePADSTags at read
  split at read
  · cases read
  split at read
  · cases read
  split at read
  · cases read
  split at read
  · cases read
    exact ⟨_, rfl⟩
  · cases read
    exact ⟨c.relayId, rfl⟩

theorem padsTags_keep {found : List (Nat × List Byte)} (read : found.foldlM parsePADSTags c = .ok d) :
    ∃ relayId, d = { c with relayId := relayId } := by
  have kept : ∀ {a b t}, (∃ relayId, a = { c with relayId := relayId }) → parsePADSTags a t = .ok b →
      ∃ relayId, b = { c with relayId := relayId } := by
    rintro a b t ⟨earlier, rfl⟩ one
    obtain ⟨later, rfl⟩ := parsePADSTags_keeps one
    exact ⟨later, rfl⟩
  exact foldlM_invariant (P := fun a : Client => ∃ relayId, a = { c with relayId := relayId }) kept
    ⟨c.relayId, rfl⟩ read

end Seen

/-! ## Every run -/

section Log

variable {conf : Settings} {c : Client} {i j : Nat}

/-- At most `i` PADIs were sent, and then at most `j` PADRs to the chosen peer. -/
def Log (c : Client) (i j : Nat) : Prop :=
  ∃ first later, c.sent = first ++ later ∧ first.length ≤ i ∧ (∀ q ∈ first, q.code = codePadi) ∧
    later.length ≤ j ∧ ∀ q ∈ later, q.code = codePadr ∧ q.dest = c.peerEth

theorem sendTags_cases (conf : Settings) (c : Client) (code : Byte) (dest : Mac) (payload : List Byte) :
    sendTags conf c code dest payload = c ∨
    ∃ q : Packet, q.code = code ∧ q.dest = dest ∧
      sendTags conf c code dest payload = { c with sent := c.sent ++ [q] } := by
  unfold sendTags
  split
  · exact .inl rfl
  · exact .inr ⟨_, rfl, rfl, rfl⟩

theorem sendPADI_cases (conf : Settings) (c : Client) : sendPADI conf c = c ∨
    ∃ q : Packet, q.code = codePadi ∧ sendPADI conf c = { c with sent := c.sent ++ [q] } :=
  (sendTags_cases _ _ _ _ _).imp_right fun ⟨q, code, _, more⟩ => ⟨q, code, more⟩

theorem sendPADR_cases (conf : Settings) (c : Client) : sendPADR conf c = c ∨
    ∃ q : Packet, q.code = codePadr ∧ q.dest = c.peerEth ∧ sendPADR conf c = { c with sent := c.sent ++ [q] } :=
  sendTags_cases _ _ _ _ _

theorem Log.mono {k l : Nat} (log : Log c i j) (more : i ≤ k) (later : j ≤ l) : Log c k l := by
  obtain ⟨first, rest, sent, few, padi, last, padr⟩ := log
  exact ⟨first, rest, sent, Nat.le_trans few more, padi, Nat.le_trans last later, padr⟩

theorem Log.padi (log : Log c i 0) : Log (sendPADI conf c) (i + 1) 0 := by
  obtain ⟨first, later, sent, few, padi, none, -⟩ := log
  cases List.length_eq_zero_iff.mp (Nat.le_zero.mp none)
  rcases sendPADI_cases conf c with same | ⟨q, code, more⟩
  · rw [same]
    exact ⟨first, [], sent, Nat.le_succ_of_le few, padi, Nat.le_refl 0, fun _ member => absurd member List.not_mem_nil⟩
  · rw [more]
    refine ⟨first ++ [q], [], ?_, ?_, ?_, Nat.le_refl 0, fun _ member => absurd member List.not_mem_nil⟩
    · rw [sent, List.append_nil, List.append_nil]
    · rw [List.length_append]
      exact Nat.succ_le_succ few
    · intro r member
      rcases List.mem_append.mp member with earlier | last
      · exact padi r earlier
      · rw [List.mem_singleton.mp last]
        exact code

theorem Log.padr (log : Log c i j) : Log (sendPADR conf c) i (j + 1) := by
  obtain ⟨first, later, sent, few, padi, less, padr⟩ := log
  rcases sendPADR_cases conf c with same | ⟨q, code, dest, more⟩
  · rw [same]
    exact ⟨first, later, sent, few, padi, Nat.le_succ_of_le less, padr⟩
  · rw [more]
    refine ⟨first, later ++ [q], ?_, few, padi, ?_, ?_⟩
    · rw [sent, List.append_assoc]
    · rw [List.length_append]
      exact Nat.succ_le_succ less
    · intro r member
      rcases List.mem_append.mp member with earlier | last
      · exact padr r earlier
      · rw [List.mem_singleton.mp last]
        exact ⟨code, dest⟩

/-- Before the first PADR the peer may still change. -/
theorem Log.moved {d : Client} (log : Log c i 0) (same : d.sent = c.sent) : Log d i 0 := by
  obtain ⟨first, later, sent, few, padi, none, -⟩ := log
  cases List.length_eq_zero_iff.mp (Nat.le_zero.mp none)
  exact ⟨first, [], same.trans sent, few, padi, none, fun _ member => absurd member List.not_mem_nil⟩

end Log

section Invariant

variable {conf : Settings} {events : List Event} {c d : Client} {p : Packet} {e : Event} {k timeout len : Nat}

/-- The peer made an offer, and the names asked for were offered. -/
def Chosen (conf : Settings) (events : List Event) (c : Client) : Prop :=
  (∃ pado, Offered conf events pado ∧ pado.source = c.peerEth) ∧
    Named conf events tagAcName conf.acName ∧ Named conf events tagServiceName conf.serviceName

/-- The peer confirmed the session. -/
def Agreed (conf : Settings) (events : List Event) (c : Client) : Prop :=
  Chosen conf events c ∧ ∃ pads, Confirmed conf events pads ∧ pads.source = c.peerEth ∧ pads.session = c.session

def PhaseOk (conf : Settings) (events : List Event) (c : Client) : Phase → Prop
  | .sentPADI k _ => k ≤ maxPadiAttempts ∧ Log c k 0
  | .sentPADR k _ => k ≤ maxPadiAttempts ∧ Log c maxPadiAttempts k ∧ Chosen conf events c
  | .session => Log c maxPadiAttempts maxPadiAttempts ∧ Agreed conf events c
  | .ended _ => Log c maxPadiAttempts maxPadiAttempts

structure Inv (conf : Settings) (events : List Event) (c : Client) : Prop where
  acName : c.acNameOK = true → Named conf events tagAcName conf.acName
  serviceName : c.serviceNameOK = true → Named conf events tagServiceName conf.serviceName
  phase : PhaseOk conf events c c.phase

theorem Chosen.later (chosen : Chosen conf events c) : Chosen conf (events ++ [e]) c := by
  obtain ⟨⟨pado, offered, source⟩, acName, serviceName⟩ := chosen
  exact ⟨⟨pado, offered.later, source⟩, acName.later, serviceName.later⟩

theorem Inv.later (inv : Inv conf events c) : Inv conf (events ++ [e]) c := by
  refine ⟨fun ok => (inv.acName ok).later, fun ok => (inv.serviceName ok).later, ?_⟩
  have fine := inv.phase
  cases phase : c.phase with
  | sentPADI k timeout =>
    rw [phase] at fine
    exact fine
  | sentPADR k timeout =>
    rw [phase] at fine
    exact ⟨fine.1, fine.2.1, fine.2.2.later⟩
  | session =>
    rw [phase] at fine
    obtain ⟨log, chosen, pads, confirmed, source, number⟩ := fine
    exact ⟨log, chosen.later, pads, confirmed.later, source, number⟩
  | ended message =>
    rw [phase] at fine
    exact fine

theorem tryPADI_inv (acName : c.acNameOK = true → Named conf events tagAcName conf.acName)
    (serviceName : c.serviceNameOK = true → Named conf events tagServiceName conf.serviceName)
    (log : Log c k 0) (few : k ≤ maxPadiAttempts) : Inv conf events (tryPADI conf c (k + 1) timeout) := by
  unfold tryPADI
  split
  · exact ⟨acName, serviceName, log.mono few (Nat.zero_le _)⟩
  · next left =>
    exact ⟨named_none tagAcName, named_none tagServiceName, Nat.le_of_not_lt left, log.padi⟩

theorem tryPADR_inv (acName : c.acNameOK = true → Named conf events tagAcName conf.acName)
    (serviceName : c.serviceNameOK = true → Named conf events tagServiceName conf.serviceName)
    (log : Log c maxPadiAttempts k) (few : k ≤ maxPadiAttempts) (chosen : Chosen conf events c) :
    Inv conf events (tryPADR conf c (k + 1) timeout) := by
  unfold tryPADR
  split
  · exact ⟨acName, serviceName, log.mono (Nat.le_refl _) few⟩
  · next left =>
    have sent : Log (sendPADR conf c) maxPadiAttempts (k + 1) := log.padr
    rcases sendPADR_cases conf c with same | ⟨q, -, -, more⟩
    · rw [same] at sent ⊢
      exact ⟨acName, serviceName, Nat.le_of_not_lt left, sent, chosen⟩
    · rw [more] at sent ⊢
      exact ⟨acName, serviceName, Nat.le_of_not_lt left, sent, chosen⟩

theorem Parsed.inv {k timeout : Nat} (parsed : Parsed conf (tags p) c d) (inv : Inv conf events c)
    (phase : c.phase = .sentPADI k timeout) (offered : Offered conf events p) : Inv conf events d := by
  refine ⟨fun ok => ?_, fun ok => ?_, ?_⟩
  · rcases parsed.acName ok with before | ⟨bytes, name, member⟩
    · exact inv.acName before
    · intro other same
      cases name.symm.trans same
      exact ⟨p, offered, member⟩
  · rcases parsed.serviceName ok with before | ⟨bytes, name, member⟩
    · exact inv.serviceName before
    · intro other same
      cases name.symm.trans same
      exact ⟨p, offered, member⟩
  · have fine := inv.phase
    rw [parsed.phase, phase]
    rw [phase] at fine
    exact ⟨fine.1, fine.2.moved parsed.sent⟩

theorem waitForPADO_inv (inv : Inv conf events c) (phase : c.phase = .sentPADI k timeout)
    (member : .packet p len ∈ events) : Inv conf events (waitForPADO conf c p len) := by
  have fine := inv.phase
  rw [phase] at fine
  unfold waitForPADO
  split
  · exact inv
  next whole =>
  split
  · exact inv
  next forMe =>
  split
  · exact inv
  next code =>
  split
  · exact inv
  next unicast =>
  have offered : Offered conf events p :=
    ⟨⟨len, member, Nat.le_of_not_lt whole⟩, by simpa using forMe, not_not.mp code, Bool.eq_false_iff.mpr unicast⟩
  split
  · exact ⟨inv.acName, inv.serviceName, fine.2.mono fine.1 (Nat.zero_le _)⟩
  next d read =>
  have parsed : Parsed conf (tags p) c d := by
    have counted := parsed_all read
    exact ⟨counted.peerEth, counted.phase, counted.sent, counted.acName, counted.serviceName⟩
  have after := parsed.inv inv phase offered
  have log : Log { d with peerEth := p.source } k 0 := fine.2.moved parsed.sent
  split
  · next both =>
    obtain ⟨acName, serviceName⟩ := Bool.and_eq_true_iff.mp both
    split
    · refine ⟨after.acName, after.serviceName, ?_⟩
      change PhaseOk conf events { d with peerEth := p.source } d.phase
      rw [parsed.phase, phase]
      exact ⟨fine.1, log⟩
    · exact tryPADR_inv after.acName after.serviceName (log.mono fine.1 (Nat.le_refl 0)) (Nat.zero_le _)
        ⟨⟨p, offered, rfl⟩, after.acName acName, after.serviceName serviceName⟩
  · exact after

theorem waitForPADS_inv (inv : Inv conf events c) (phase : c.phase = .sentPADR k timeout)
    (member : .packet p len ∈ events) : Inv conf events (waitForPADS conf c p len) := by
  have fine := inv.phase
  rw [phase] at fine
  obtain ⟨few, log, chosen⟩ := fine
  unfold waitForPADS
  split
  · exact inv
  next whole =>
  split
  · exact inv
  next source =>
  split
  · exact inv
  next forMe =>
  split
  · exact inv
  next code =>
  have confirmed : Confirmed conf events p :=
    ⟨⟨len, member, Nat.le_of_not_lt whole⟩, by simpa using forMe, not_not.mp code⟩
  split
  · exact ⟨inv.acName, inv.serviceName, log.mono (Nat.le_refl _) few⟩
  next d read =>
  obtain ⟨relayId, rfl⟩ := padsTags_keep read
  exact ⟨inv.acName, inv.serviceName, log.mono (Nat.le_refl _) few, chosen, p, confirmed, not_not.mp source, rfl⟩

theorem step_inv (inv : Inv conf events c) : Inv conf (events ++ [e]) (step conf c e) := by
  have now : e ∈ events ++ [e] := List.mem_append_right _ (List.mem_singleton_self e)
  have fine := inv.later (e := e)
  have ok := fine.phase
  unfold step
  split
  · next k timeout phase =>
    rw [phase] at ok
    split
    · exact ⟨fine.acName, fine.serviceName, ok.2.mono ok.1 (Nat.zero_le _)⟩
    · exact tryPADI_inv fine.acName fine.serviceName ok.2 ok.1
  · next k timeout p len phase => exact waitForPADO_inv fine phase now
  · next k timeout phase =>
    rw [phase] at ok
    exact tryPADR_inv fine.acName fine.serviceName ok.2.1 ok.1 ok.2.2
  · next k timeout p len phase => exact waitForPADS_inv fine phase now
  · exact fine

theorem run_inv (inv : Inv conf events c) (more : List Event) :
    Inv conf (events ++ more) (more.foldl (step conf) c) := by
  induction more generalizing events c with
  | nil =>
    rw [List.append_nil]
    exact inv
  | cons e more ih =>
    have next := ih (step_inv (e := e) inv)
    rw [List.append_assoc] at next
    exact next

theorem started_inv (conf : Settings) : Inv conf [] (started conf) := by
  refine tryPADI_inv (fun ok => nomatch ok) (fun ok => nomatch ok) ?_ (Nat.zero_le _)
  exact ⟨[], [], rfl, Nat.le_refl 0, fun _ member => absurd member List.not_mem_nil, Nat.le_refl 0,
    fun _ member => absurd member List.not_mem_nil⟩

/-- Whatever packets arrive and whenever the waits time out: the client sends at
most three PADIs and then at most three PADRs, all to one peer; and it enters a
session only with a peer that made it an offer and then confirmed this session,
after the names it asks for were offered. -/
theorem discovery_agrees (conf : Settings) (events : List Event) :
    Log (discovery conf events) maxPadiAttempts maxPadiAttempts ∧
    ((discovery conf events).phase = .session → Agreed conf events (discovery conf events)) := by
  have inv : Inv conf events (discovery conf events) := run_inv (started_inv conf) events
  have fine := inv.phase
  cases phase : (discovery conf events).phase with
  | sentPADI k timeout =>
    rw [phase] at fine
    exact ⟨fine.2.mono fine.1 (Nat.zero_le _), fun done => nomatch done⟩
  | sentPADR k timeout =>
    rw [phase] at fine
    exact ⟨fine.2.1.mono (Nat.le_refl _) fine.1, fun done => nomatch done⟩
  | session =>
    rw [phase] at fine
    exact ⟨fine.1, fun _ => fine.2⟩
  | ended message =>
    rw [phase] at fine
    exact ⟨fine, fun done => nomatch done⟩

/-- A client with a service and a Host-Uniq tag, and an answer that has both. -/
def askingClient : Settings where
  myEth := ⟨0, 1, 2, 3, 4, 5⟩
  acName := none
  serviceName := some [0x61]
  hostUniq := some [1, 0, 0, 0]
  printACNames := false

def answer (code : Byte) : Packet where
  dest := ⟨0, 1, 2, 3, 4, 5⟩
  source := ⟨0, 1, 2, 3, 4, 6⟩
  ver := 1
  type := 1
  code := code
  session := 7
  length := 13
  payload := tag tagServiceName [0x61] ++ tag tagHostUniq [1, 0, 0, 0]

theorem discovery_agrees_second_try :
    (discovery askingClient [.timedOut, .packet (answer codePado) 60, .timedOut, .packet (answer codePads) 60]).phase =
      .session ∧
    Agreed askingClient [.timedOut, .packet (answer codePado) 60, .timedOut, .packet (answer codePads) 60]
      (discovery askingClient [.timedOut, .packet (answer codePado) 60, .timedOut, .packet (answer codePads) 60]) := by
  have done : (discovery askingClient
      [.timedOut, .packet (answer codePado) 60, .timedOut, .packet (answer codePads) 60]).phase = .session := by
    decide +kernel
  exact ⟨done, (discovery_agrees askingClient _).2 done⟩

end Invariant

/-! ## An answer in time -/

section Answer

variable {conf : Settings} {c : Client} {p pado pads : Packet} {len len' : Nat}

/-- An error of the access concentrator ends the client. -/
def isError (kind : Nat) : Bool := kind = tagServiceNameError || kind = tagAcSystemError || kind = tagGenericError

/-- A packet of this kind that the client takes for an answer without errors. -/
structure Answers (conf : Settings) (code : Byte) (p : Packet) (len : Nat) : Prop where
  whole : p.length + hdrSize ≤ len
  forMe : packetIsForMe conf p = true
  code : p.code = code
  clean : ∀ t ∈ tags p, isError t.1 = false

end Answer

end Fdgw.Discovery
