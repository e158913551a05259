import Fdgw.Relay
import Mathlib.Data.List.Perm.Basic
import Mathlib.Data.List.Range

/-!
The session table of the relay as a list of sessions. `Represents` ties the two
tables with their four kinds of lists to that list, and the operations of
`relay.c` are shown to do on the tables what their names say on the list: no null
pointer is followed, no entry is lost and none is on two lists.
-/
namespace Fdgw.Relay
open Pppoe Links

/-! ## Sessions -/

/-- One end of a session: where its frames come from and go to. -/
structure End where
  interface : Nat
  mac : Mac
  num : SessionNumber
  deriving DecidableEq, Repr

/-- A session between an access concentrator and a client. -/
structure Flow where
  slot : Nat
  ac : End
  client : End
  epoch : BitVec 32
  deriving DecidableEq, Repr

inductive Role where
  | ac
  | client
  deriving DecidableEq, Repr

def Role.peer : Role → Role
  | .ac => .client
  | .client => .ac

def Flow.at (f : Flow) : Role → End
  | .ac => f.ac
  | .client => f.client

/-- Frames with this address and number come from this end. -/
def End.matches (e : End) (mac : Mac) (num : SessionNumber) : Bool := mac = e.mac && num = e.num

/-- The ends of all sessions, in the order the table has them. -/
def ends (active : List Flow) : List (Flow × Role) :=
  active.flatMap fun f => [(f, .client), (f, .ac)]

/-- The end a frame comes from. -/
def find (active : List Flow) (mac : Mac) (num : SessionNumber) : Option (Flow × Role) :=
  (ends active).find? fun e => (e.1.at e.2).matches mac num

/-- The number the relay hands out with a slot. -/
def number (slot : Nat) : SessionNumber := htons (BitVec.ofNat 16 (slot + 1))

/-- A session with its two hash entries. -/
structure Placed where
  flow : Flow
  acHash : Nat
  clientHash : Nat
  deriving DecidableEq, Repr

def Placed.slot (p : Placed) : Nat := p.flow.slot

def Placed.hashes (p : Placed) : List Nat := [p.clientHash, p.acHash]

def Placed.hashAt (p : Placed) : Role → Nat
  | .ac => p.acHash
  | .client => p.clientHash

/-- The key a hash entry is filed under. -/
def Table.key (t : Table) (sh : Nat) : Nat := bucket (t.hash sh).peerMac (t.hash sh).sesNum

/-- The hash entry of one end of a session. -/
def Placed.entry (p : Placed) (r : Role) : SessionHash :=
  ⟨some (p.hashAt r.peer), (p.flow.at r).interface, (p.flow.at r).mac, (p.flow.at r).num, some p.slot⟩

def Placed.record (p : Placed) : Session :=
  ⟨some p.acHash, some p.clientHash, p.flow.epoch, p.flow.client.num⟩

/-- The table holds the sessions `ps`; the slots `free` and the hash entries `spare`
are unused. -/
structure Represents (t : Table) (ps : List Placed) (free spare : List Nat) : Prop where
  active : Chain t.sessionLink none t.activeSessions (ps.map Placed.slot)
  unused : Stack t.sessionLink t.freeSessions free
  slots : (ps.map Placed.slot ++ free).Perm (List.range t.maxSessions)
  count : t.numSessions = ps.length
  buckets : Buckets t.hashLink t.buckets t.key (ps.flatMap Placed.hashes)
  unfiled : Stack t.hashLink t.freeHashes spare
  hashes : (ps.flatMap Placed.hashes ++ spare).Perm (List.range (2 * t.maxSessions))
  records : ∀ p ∈ ps, t.session p.slot = p.record
  entries : ∀ p ∈ ps, ∀ r, t.hash (p.hashAt r) = p.entry r
  numbers : ∀ i, (t.session i).sesNum = number i

variable {t : Table} {ps : List Placed} {free spare : List Nat} {p : Placed}

namespace Represents

theorem slots_nodup (rep : Represents t ps free spare) : (ps.map Placed.slot ++ free).Nodup :=
  rep.slots.nodup_iff.mpr List.nodup_range

theorem hashes_nodup (rep : Represents t ps free spare) : (ps.flatMap Placed.hashes ++ spare).Nodup :=
  rep.hashes.nodup_iff.mpr List.nodup_range

theorem active_nodup (rep : Represents t ps free spare) : (ps.map Placed.slot).Nodup :=
  rep.slots_nodup.of_append_left

theorem filed_nodup (rep : Represents t ps free spare) : (ps.flatMap Placed.hashes).Nodup :=
  rep.hashes_nodup.of_append_left

theorem mem_hashes (member : p ∈ ps) (r : Role) : p.hashAt r ∈ ps.flatMap Placed.hashes := by
  refine List.mem_flatMap.mpr ⟨p, member, ?_⟩
  cases r <;> simp [Placed.hashAt, Placed.hashes]

theorem slots_length (rep : Represents t ps free spare) : ps.length + free.length = t.maxSessions := by
  have lengths := rep.slots.length_eq
  simpa using lengths

theorem hashes_length (rep : Represents t ps free spare) :
    2 * ps.length + spare.length = 2 * t.maxSessions := by
  have lengths := rep.hashes.length_eq
  rw [List.length_append, List.length_range, List.length_flatMap] at lengths
  have two : (ps.map fun p => p.hashes.length).sum = 2 * ps.length := by
    simp [Placed.hashes, Nat.mul_comm]
  rw [two] at lengths
  exact lengths

end Represents

/-- The ends with their hash entries. -/
def placedEnds (ps : List Placed) : List (Placed × Role) :=
  ps.flatMap fun p => [(p, .client), (p, .ac)]

def findPlaced (ps : List Placed) (mac : Mac) (num : SessionNumber) : Option (Placed × Role) :=
  (placedEnds ps).find? fun e => (e.1.flow.at e.2).matches mac num

theorem find_placed (mac : Mac) (num : SessionNumber) :
    find (ps.map Placed.flow) mac num = (findPlaced ps mac num).map fun e => (e.1.flow, e.2) := by
  have mapped : ends (ps.map Placed.flow) = (placedEnds ps).map fun e => (e.1.flow, e.2) := by
    simp only [ends, placedEnds, List.flatMap_map, List.map_flatMap]
    rfl
  rw [find, findPlaced, mapped, List.find?_map]
  rfl

/-- `findSession` finds the newest entry with the address and the number. -/
theorem Represents.findSession (rep : Represents t ps free spare) (mac : Mac) (num : SessionNumber) :
    findSession t mac num = (findPlaced ps mac num).map fun e => e.1.hashAt e.2 := by
  have enough : (ps.flatMap Placed.hashes).length ≤ 2 * t.maxSessions := by
    have lengths := rep.hashes.length_eq
    rw [List.length_append, List.length_range] at lengths
    omega
  have found := rep.buckets.search
    (fun sh => mac = (t.hash sh).peerMac && num = (t.hash sh).sesNum) (b := bucket mac num) enough (by
      intro sh _ hit
      simp only [Bool.and_eq_true, decide_eq_true_eq] at hit
      rw [Table.key, ← hit.1, ← hit.2])
  have listed : ps.flatMap Placed.hashes = (placedEnds ps).map fun e => e.1.hashAt e.2 := by
    simp only [placedEnds, List.map_flatMap]
    rfl
  rw [Relay.findSession, found, listed, List.find?_map, findPlaced]
  congr 1
  refine List.find?_congr fun e member => ?_
  obtain ⟨p, inside, which⟩ := List.mem_flatMap.mp member
  have same : e.1 = p := by
    simp only [List.mem_cons, List.not_mem_nil, or_false] at which
    rcases which with rfl | rfl <;> rfl
  simp [rep.entries e.1 (same ▸ inside) e.2, Placed.entry, End.matches]

/-! ## Opening a session -/

section Create

variable {s h1 h2 : Nat} {epoch : BitVec 32} {ac cli : Nat} {acMac cliMac : Mac} {acSes : SessionNumber}

/-- The session `createSession` makes of what is first on the free lists. -/
def placed (s h1 h2 : Nat) (epoch : BitVec 32) (ac cli : Nat) (acMac cliMac : Mac)
    (acSes : SessionNumber) : Placed :=
  ⟨⟨s, ⟨ac, acMac, acSes⟩, ⟨cli, cliMac, number s⟩, epoch⟩, h1, h2⟩

/-- The hash entries are written before they are filed. -/
def written (t : Table) (new : Placed) : Nat → SessionHash :=
  Function.update (Function.update t.hash new.acHash (new.entry .ac)) new.clientHash (new.entry .client)

theorem Represents.fresh (rep : Represents t ps (s :: free) (h1 :: h2 :: spare)) :
    s ∉ ps.map Placed.slot ∧ s ∉ free ∧ h1 ∉ ps.flatMap Placed.hashes ∧
      h2 ∉ ps.flatMap Placed.hashes ∧ h1 ≠ h2 ∧ h1 ∉ spare ∧ h2 ∉ spare := by
  have slots := List.nodup_append.mp rep.slots_nodup
  have hashes := List.nodup_append.mp rep.hashes_nodup
  have first := List.nodup_cons.mp hashes.2.1
  have second := List.nodup_cons.mp first.2
  simp only [List.mem_cons, not_or] at first
  refine ⟨?_, (List.nodup_cons.mp slots.2.1).1, ?_, ?_, first.1.1, first.1.2, second.1⟩
  · exact fun member => slots.2.2 s member s (by simp) rfl
  · exact fun member => hashes.2.2 h1 member h1 (by simp) rfl
  · exact fun member => hashes.2.2 h2 member h2 (by simp) rfl

/-- The table with the new session in it. -/
def opened (t : Table) (new : Placed) : Table :=
  let t' := { t with
    freeSessions := (t.sessionLink new.slot).next
    numSessions := t.numSessions + 1
    sessionLink := pushFront t.sessionLink t.activeSessions new.slot
    activeSessions := some new.slot
    freeHashes := (t.hashLink new.clientHash).next
    session := Function.update t.session new.slot new.record
    hash := written t new }
  addHash (addHash t' new.acHash) new.clientHash

theorem Represents.createSession (rep : Represents t ps (s :: free) (h1 :: h2 :: spare))
    (room : t.numSessions < t.maxSessions) :
    createSession t epoch ac cli acMac cliMac acSes =
      some (some s, opened t (placed s h1 h2 epoch ac cli acMac cliMac acSes)) := by
  obtain ⟨firstFree, -⟩ := rep.unused
  obtain ⟨firstSpare, secondSpare, -⟩ := rep.unfiled
  rw [Relay.createSession, if_neg (by omega), firstFree, firstSpare]
  simp only [Option.bind_eq_bind, Option.bind_some, secondSpare, rep.numbers s]
  rfl

theorem Represents.opened {new : Placed}
    (rep : Represents t ps (new.slot :: free) (new.acHash :: new.clientHash :: spare))
    (num : new.flow.client.num = number new.slot) :
    Represents (opened t new) (new :: ps) free spare := by
  obtain ⟨newSlot, apart, newAc, newClient, different, apartAc, apartClient⟩ := rep.fresh
  obtain ⟨-, restFree⟩ := rep.unused
  obtain ⟨-, -, restSpare⟩ := rep.unfiled
  have slots := (List.nodup_append.mp rep.slots_nodup).2.2
  have hashes := (List.nodup_append.mp rep.hashes_nodup).2.2
  have unwritten (sh : Nat) (notAc : sh ≠ new.acHash) (notClient : sh ≠ new.clientHash) :
      written t new sh = t.hash sh := by
    rw [written, Function.update_of_ne notClient, Function.update_of_ne notAc]
  have filed : Buckets t.hashLink t.buckets
      (fun sh => bucket (written t new sh).peerMac (written t new sh).sesNum)
      (ps.flatMap Placed.hashes) := by
    refine rep.buckets.congr (fun _ _ => rfl) fun sh member => ?_
    rw [unwritten sh (fun same => newAc (same ▸ member)) (fun same => newClient (same ▸ member))]
    rfl
  have first := filed.insert rep.filed_nodup newAc
  have firstNodup : (new.acHash :: ps.flatMap Placed.hashes).Nodup :=
    List.nodup_cons.mpr ⟨newAc, rep.filed_nodup⟩
  have freshSecond : new.clientHash ∉ new.acHash :: ps.flatMap Placed.hashes := by
    simp only [List.mem_cons, not_or]
    exact ⟨Ne.symm different, newClient⟩
  refine ⟨?_, ?_, ?_, ?_, first.insert firstNodup freshSecond, ?_, ?_, ?_, ?_, ?_⟩
  · exact rep.active.pushFront rep.active_nodup newSlot
  · refine restFree.congr fun i member => ?_
    have notNew : i ≠ new.slot := fun same => apart (same ▸ member)
    have notActive : i ∉ ps.map Placed.slot :=
      fun active => slots i active i (List.mem_cons_of_mem _ member) rfl
    exact congrArg Link.next (pushFront_frame rep.active notNew notActive)
  · exact List.perm_middle.symm.trans rep.slots
  · exact congrArg (· + 1) rep.count
  · refine restSpare.congr fun sh member => ?_
    have notAc : sh ≠ new.acHash := fun same => apartAc (same ▸ member)
    have notClient : sh ≠ new.clientHash := fun same => apartClient (same ▸ member)
    have unfiled : sh ∉ ps.flatMap Placed.hashes :=
      fun there => hashes sh there sh (List.mem_cons_of_mem _ (List.mem_cons_of_mem _ member)) rfl
    have unfiledFirst : sh ∉ new.acHash :: ps.flatMap Placed.hashes := by
      simp only [List.mem_cons, not_or]
      exact ⟨notAc, unfiled⟩
    exact congrArg Link.next
      ((first.insert_frame notClient unfiledFirst).trans (filed.insert_frame notAc unfiled))
  · have moved : (new.clientHash :: new.acHash :: (ps.flatMap Placed.hashes ++ spare)).Perm
        (ps.flatMap Placed.hashes ++ new.acHash :: new.clientHash :: spare) :=
      (List.Perm.swap ..).trans ((List.perm_middle.symm.cons _).trans List.perm_middle.symm)
    exact moved.trans rep.hashes
  · intro p member
    change Function.update t.session new.slot new.record p.slot = p.record
    rcases List.mem_cons.mp member with rfl | old
    · rw [Function.update_self]
    · have other : p.slot ≠ new.slot := fun same => newSlot (same ▸ List.mem_map_of_mem old)
      rw [Function.update_of_ne other]
      exact rep.records p old
  · intro p member r
    change written t new (p.hashAt r) = p.entry r
    rcases List.mem_cons.mp member with rfl | old
    · cases r with
      | ac => rw [written, Placed.hashAt, Function.update_of_ne different, Function.update_self]
      | client => rw [written, Placed.hashAt, Function.update_self]
    · have there := Represents.mem_hashes old r
      rw [unwritten _ (fun same => newAc (same ▸ there)) (fun same => newClient (same ▸ there))]
      exact rep.entries p old r
  · intro i
    change (Function.update t.session new.slot new.record i).sesNum = number i
    by_cases same : i = new.slot
    · rw [same, Function.update_self]
      exact num
    · rw [Function.update_of_ne same]
      exact rep.numbers i

end Create

/-! ## Closing a session -/

section Free

variable {sh : Nat} {filed unfiled : List Nat} {l1 l2 : List Placed}

theorem unhash_eq (t : Table) (sh : Nat) : unhash t sh = { t with
    buckets := Function.update t.buckets (t.key sh) (headWithout t.hashLink (t.buckets (t.key sh)) sh)
    hashLink := pushStack (detach t.hashLink sh) t.freeHashes sh
    freeHashes := some sh } := by
  simp only [unhash, headWithout]
  cases (t.hashLink sh).prev with
  | none => rfl
  | some _ => simp

/-- One hash entry goes from its bucket to the free list. -/
theorem unhash_lists (table : Buckets t.hashLink t.buckets t.key filed)
    (stack : Stack t.hashLink t.freeHashes unfiled) (nodup : (filed ++ unfiled).Nodup)
    (member : sh ∈ filed) :
    Buckets (unhash t sh).hashLink (unhash t sh).buckets (unhash t sh).key (filed.erase sh) ∧
      Stack (unhash t sh).hashLink (unhash t sh).freeHashes (sh :: unfiled) := by
  obtain ⟨distinct, -, apart⟩ := List.nodup_append.mp nodup
  have fresh : sh ∉ unfiled := fun there => apart sh member sh there rfl
  rw [unhash_eq]
  constructor
  · refine (table.remove distinct member).congr (fun c there => ?_) fun _ _ => rfl
    refine pushStack_other ?_
    rintro rfl
    exact distinct.not_mem_erase there
  · refine Stack.push (stack.congr fun c there => ?_) fresh
    rw [table.remove_frame member fun inside => apart c inside c there rfl]

/-- The table without the session. -/
def closed (t : Table) (p : Placed) : Table :=
  let t' := { t with
    activeSessions := headWithout t.sessionLink t.activeSessions p.slot
    sessionLink := pushStack (detach t.sessionLink p.slot) t.freeSessions p.slot
    freeSessions := some p.slot }
  let t' := unhash (unhash t' p.acHash) p.clientHash
  { t' with numSessions := t'.numSessions - 1 }

theorem Represents.freeSession (rep : Represents t ps free spare) (member : p ∈ ps) :
    freeSession t p.slot = some (closed t p) := by
  rw [Relay.freeSession, rep.records p member]
  rfl

theorem erase_middle {a : Nat} {before after : List Nat} (fresh : a ∉ before) :
    (before ++ a :: after).erase a = before ++ after := by
  rw [List.erase_append_right _ fresh, List.erase_cons_head]

theorem Represents.closed (rep : Represents t (l1 ++ p :: l2) free spare) :
    Represents (closed t p) (l1 ++ l2) (p.slot :: free) (p.clientHash :: p.acHash :: spare) := by
  have listed : p ∈ l1 ++ p :: l2 := by simp
  have others {q : Placed} (member : q ∈ l1 ++ l2) : q ∈ l1 ++ p :: l2 := by
    simp only [List.mem_append, List.mem_cons] at member ⊢
    tauto
  obtain ⟨activeNodup, -, apart⟩ := List.nodup_append.mp rep.slots_nodup
  have slotsSplit : (l1 ++ p :: l2).map Placed.slot = l1.map Placed.slot ++ p.slot :: l2.map Placed.slot := by
    simp
  have hashesSplit : (l1 ++ p :: l2).flatMap Placed.hashes =
      l1.flatMap Placed.hashes ++ p.clientHash :: p.acHash :: l2.flatMap Placed.hashes := by
    simp [Placed.hashes]
  have inside : p.slot ∈ (l1 ++ p :: l2).map Placed.slot := List.mem_map_of_mem listed
  have freshSlot : p.slot ∉ l1.map Placed.slot := by
    rw [slotsSplit] at activeNodup
    exact fun there => (List.nodup_append.mp activeNodup).2.2 _ there _ (by simp) rfl
  have erased : ((l1 ++ p :: l2).map Placed.slot).erase p.slot = (l1 ++ l2).map Placed.slot := by
    rw [slotsSplit, erase_middle freshSlot, List.map_append]
  -- the hash entries, the one of the access concentrator first
  have filedNodup := rep.filed_nodup
  rw [hashesSplit] at filedNodup
  obtain ⟨-, tailNodup, hashApart⟩ := List.nodup_append.mp filedNodup
  have different : p.acHash ≠ p.clientHash := fun same =>
    (List.nodup_cons.mp tailNodup).1 (same ▸ List.mem_cons_self)
  have erasedAc : ((l1 ++ p :: l2).flatMap Placed.hashes).erase p.acHash =
      l1.flatMap Placed.hashes ++ p.clientHash :: l2.flatMap Placed.hashes := by
    have fresh : p.acHash ∉ l1.flatMap Placed.hashes ++ [p.clientHash] := by
      simp only [List.mem_append, List.mem_singleton, not_or]
      exact ⟨fun there => hashApart _ there _ (by simp) rfl, different⟩
    have split : (l1.flatMap Placed.hashes ++ [p.clientHash] ++
        p.acHash :: l2.flatMap Placed.hashes).erase p.acHash = _ := erase_middle fresh
    simpa [hashesSplit] using split
  have erasedBoth : (l1.flatMap Placed.hashes ++ p.clientHash :: l2.flatMap Placed.hashes).erase
      p.clientHash = (l1 ++ l2).flatMap Placed.hashes := by
    rw [erase_middle fun there => hashApart _ there _ (by simp) rfl, List.flatMap_append]
  have permuted : ((l1 ++ l2).flatMap Placed.hashes ++ p.clientHash :: p.acHash :: spare).Perm
      ((l1 ++ p :: l2).flatMap Placed.hashes ++ spare) := by
    rw [hashesSplit, List.flatMap_append]
    refine List.perm_iff_count.mpr fun a => ?_
    simp only [List.count_append, List.count_cons]
    omega
  have halfway : ((l1.flatMap Placed.hashes ++ p.clientHash :: l2.flatMap Placed.hashes) ++
      p.acHash :: spare).Perm ((l1 ++ p :: l2).flatMap Placed.hashes ++ spare) := by
    rw [hashesSplit]
    refine List.perm_iff_count.mpr fun a => ?_
    simp only [List.count_append, List.count_cons]
    omega
  have first := unhash_lists (t := { t with
      activeSessions := headWithout t.sessionLink t.activeSessions p.slot
      sessionLink := pushStack (detach t.sessionLink p.slot) t.freeSessions p.slot
      freeSessions := some p.slot }) rep.buckets rep.unfiled rep.hashes_nodup
    (Represents.mem_hashes listed .ac)
  change Buckets _ _ _ (List.erase _ p.acHash) ∧ Stack _ _ (p.acHash :: spare) at first
  rw [erasedAc] at first
  have second := unhash_lists first.1 first.2 (halfway.nodup_iff.mpr rep.hashes_nodup)
    (show p.clientHash ∈ _ by simp)
  rw [erasedBoth] at second
  refine ⟨?_, ?_, ?_, ?_, second.1, second.2, permuted.trans rep.hashes, ?_, ?_, rep.numbers⟩
  · rw [← erased]
    refine (rep.active.detach activeNodup inside).congr fun i there => pushStack_other ?_
    rintro rfl
    exact activeNodup.not_mem_erase there
  · refine Stack.push (rep.unused.congr fun i there => ?_) fun there => apart _ inside _ there rfl
    rw [detach_frame rep.active inside fun active => apart i active i there rfl]
  · have moved : ((l1 ++ l2).map Placed.slot ++ p.slot :: free).Perm
        ((l1 ++ p :: l2).map Placed.slot ++ free) := by
      rw [slotsSplit, List.map_append]
      refine List.perm_iff_count.mpr fun a => ?_
      simp only [List.count_append, List.count_cons]
      omega
    exact moved.trans rep.slots
  · have count : t.numSessions = (l1 ++ p :: l2).length := rep.count
    simp only [List.length_append, List.length_cons] at count
    change t.numSessions - 1 = _
    rw [List.length_append]
    omega
  · exact fun q member => rep.records q (others member)
  · exact fun q member => rep.entries q (others member)

end Free

/-! ## The empty table -/

theorem initRelay_represents {nsess : Nat} (some : 1 ≤ nsess) :
    Represents (initRelay nsess) [] (List.range nsess) (List.range (2 * nsess)) := by
  refine ⟨rfl, ?_, List.Perm.refl _, rfl, fun _ => rfl, ?_, List.Perm.refl _, by simp, by simp,
    fun _ => rfl⟩
  · have stack := stack_range' (initRelay nsess).sessionLink 0 nsess fun j _ _ => by
      simp [initRelay]
    rw [if_pos (by omega), ← List.range_eq_range'] at stack
    exact stack
  · have stack := stack_range' (initRelay nsess).hashLink 0 (2 * nsess) fun j _ _ => by
      simp [initRelay]
    rw [if_pos (by omega), ← List.range_eq_range'] at stack
    exact stack

/-! ## Activity -/

def Flow.touch (slot : Nat) (now : BitVec 32) (f : Flow) : Flow :=
  if f.slot = slot then { f with epoch := now } else f

def Placed.touch (slot : Nat) (now : BitVec 32) (p : Placed) : Placed :=
  { p with flow := p.flow.touch slot now }

section Touch

variable {slot : Nat} {now : BitVec 32} {f : Flow}

@[simp] theorem Flow.touch_slot : (f.touch slot now).slot = f.slot := by
  simp only [Flow.touch]
  split <;> rfl

@[simp] theorem Flow.touch_at (r : Role) : (f.touch slot now).at r = f.at r := by
  simp only [Flow.touch]
  split <;> rfl

theorem Represents.touch (rep : Represents t ps free spare) :
    Represents
      { t with session := Function.update t.session slot { t.session slot with epoch := now } }
      (ps.map (Placed.touch slot now)) free spare := by
  have slots : (ps.map (Placed.touch slot now)).map Placed.slot = ps.map Placed.slot := by
    simp [Placed.touch, Placed.slot, Function.comp_def]
  have hashes : (ps.map (Placed.touch slot now)).flatMap Placed.hashes = ps.flatMap Placed.hashes := by
    simp only [List.flatMap_map]
    rfl
  refine ⟨slots ▸ rep.active, rep.unused, slots ▸ rep.slots, by simpa using rep.count,
    hashes ▸ rep.buckets, rep.unfiled, hashes ▸ rep.hashes, ?_, ?_, ?_⟩
  · intro q member
    obtain ⟨p, inside, rfl⟩ := List.mem_map.mp member
    have before := rep.records p inside
    change Function.update t.session slot _ (p.flow.touch slot now).slot = _
    rw [Flow.touch_slot]
    by_cases same : p.flow.slot = slot
    · rw [same, Function.update_self]
      change t.session p.flow.slot = _ at before
      rw [same] at before
      simp [before, Placed.record, Placed.touch, Flow.touch, same]
    · rw [Function.update_of_ne same]
      change t.session p.flow.slot = _ at before
      simpa [Placed.record, Placed.touch, Flow.touch, same] using before
  · intro q member r
    obtain ⟨p, inside, rfl⟩ := List.mem_map.mp member
    have before := rep.entries p inside r
    simp only [Placed.entry, Placed.touch, Placed.slot, Flow.touch_at, Flow.touch_slot]
    exact before
  · intro i
    by_cases same : i = slot
    · simp only [same, Function.update_self]
      exact rep.numbers slot
    · simp only [Function.update_of_ne same]
      exact rep.numbers i

end Touch

/-! ## Cleaning -/

/-- The session has not been used for longer than `IdleTimeout`. -/
def Flow.stale (now idle : BitVec 32) (f : Flow) : Bool := idle < now - f.epoch

/-- The PADTs for both ends of a session. -/
def goodbye (interfaces : List Interface) (f : Flow) : List Sent :=
  relaySendError interfaces codePadt f.ac.num f.ac.interface f.ac.mac none idleExceeded ++
    relaySendError interfaces codePadt f.client.num f.client.interface f.client.mac none idleExceeded

/-- From `cur` on, `cleanLoop` frees the idle sessions and keeps the others. -/
theorem Represents.cleanLoop (interfaces : List Interface) (now idle : BitVec 32)
    {kept rest : List Placed} {fuel : Nat} (rep : Represents t (kept ++ rest) free spare)
    (enough : rest.length ≤ fuel) :
    ∃ t' spare', cleanLoop interfaces now idle fuel (rest.map Placed.slot).head? t =
        some (t', (rest.filter fun p => p.flow.stale now idle).flatMap fun p => goodbye interfaces p.flow) ∧
      Represents t' (kept ++ rest.filter fun p => !p.flow.stale now idle)
        (((rest.filter fun p => p.flow.stale now idle).map Placed.slot).reverse ++ free) spare' ∧
      t'.maxSessions = t.maxSessions := by
  induction rest generalizing kept t free spare fuel with
  | nil =>
    refine ⟨t, spare, ?_, ?_, rfl⟩
    · cases fuel <;> rfl
    · simpa using rep
  | cons p rest ih =>
    cases fuel with
    | zero => simp at enough
    | succ fuel =>
      rw [List.length_cons] at enough
      have listed : p ∈ kept ++ p :: rest := by simp
      have next : (t.sessionLink p.slot).next = (rest.map Placed.slot).head? := by
        have chain := rep.active
        rw [List.map_append, List.map_cons] at chain
        exact chain.next_eq
      rw [List.map_cons, List.head?_cons]
      simp only [Relay.cleanLoop, next, rep.records p listed]
      cases old : p.flow.stale now idle with
      | true =>
        have late : idle < now - p.record.epoch := of_decide_eq_true old
        have acEntry : t.hash p.acHash = p.entry .ac := rep.entries p listed .ac
        have clientEntry : t.hash p.clientHash = p.entry .client := rep.entries p listed .client
        have fewer : rest.length ≤ fuel := by omega
        obtain ⟨t', spare', ran, still, most⟩ := ih rep.closed fewer
        refine ⟨t', spare', ?_, ?_, most⟩
        · rw [if_pos late]
          simp only [Placed.record, Option.bind_eq_bind, Option.bind_some, rep.freeSession listed, ran,
            acEntry, clientEntry, old, List.filter_cons_of_pos, List.flatMap_cons]
          rfl
        · simpa [old] using still
      | false =>
        have recent : ¬idle < now - p.record.epoch := of_decide_eq_false old
        have moved : Represents t ((kept ++ [p]) ++ rest) free spare := by simpa using rep
        have fewer : rest.length ≤ fuel := by omega
        obtain ⟨t', spare', ran, still, most⟩ := ih moved fewer
        refine ⟨t', spare', ?_, ?_, most⟩
        · rw [if_neg recent, ran]
          simp [old]
        · simpa [old] using still

end Fdgw.Relay
