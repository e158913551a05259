import Mathlib.Logic.Function.Basic
import Mathlib.Data.List.Nodup
import Mathlib.Data.List.Find

/-!
Intrusive lists. The links live in the nodes, a list is known by its head, and one
pair of link fields serves whichever list the node is on at the time: a doubly
linked list a node can be taken out of anywhere, or a stack that only follows
`next`. `Chain` and `Stack` say which nodes are on a list, and each operation has
a rule for the list it changes and one for the lists it leaves alone.
-/
namespace Fdgw.Links

variable {α : Type*}

structure Link (α : Type*) where
  next : Option α
  prev : Option α
  deriving DecidableEq, Repr

/-- The nodes of a doubly linked list; `before` stands in front of the first. -/
def Chain (links : α → Link α) : Option α → Option α → List α → Prop
  | _, head, [] => head = none
  | before, head, a :: l =>
    head = some a ∧ (links a).prev = before ∧ Chain links (some a) (links a).next l

/-- The nodes of a list that is only followed forwards. -/
def Stack (links : α → Link α) : Option α → List α → Prop
  | head, [] => head = none
  | head, a :: l => head = some a ∧ Stack links (links a).next l

/-! ## Operations -/

section Operations

variable [DecidableEq α]

/-- Link `a` in front of `head`. -/
def pushFront (links : α → Link α) (head : Option α) (a : α) : α → Link α :=
  let links := Function.update links a ⟨head, none⟩
  match head with
  | some b => Function.update links b { links b with prev := some a }
  | none => links

/-- Let the neighbours of `a` pass it by. -/
def detach (links : α → Link α) (a : α) : α → Link α :=
  let links' := match (links a).prev with
    | some b => Function.update links b { links b with next := (links a).next }
    | none => links
  match (links a).next with
  | some c => Function.update links' c { links' c with prev := (links a).prev }
  | none => links'

/-- The head of the list once `a` is out of it. -/
def headWithout (links : α → Link α) (head : Option α) (a : α) : Option α :=
  match (links a).prev with
  | some _ => head
  | none => (links a).next

/-- Put `a` on a stack; its `prev` is left as it is. -/
def pushStack (links : α → Link α) (head : Option α) (a : α) : α → Link α :=
  Function.update links a { links a with next := head }

end Operations

variable {links other : α → Link α} {before head : Option α} {l : List α} {a b c : α}

/-! ## Frames -/

theorem Chain.congr (chain : Chain links before head l) (same : ∀ a ∈ l, other a = links a) :
    Chain other before head l := by
  induction l generalizing before head with
  | nil => exact chain
  | cons a l ih =>
    obtain ⟨first, prev, rest⟩ := chain
    have here : other a = links a := same a List.mem_cons_self
    refine ⟨first, by rw [here, prev], ?_⟩
    rw [here]
    exact ih rest fun b member => same b (List.mem_cons_of_mem a member)

theorem Stack.congr (stack : Stack links head l) (same : ∀ a ∈ l, (other a).next = (links a).next) :
    Stack other head l := by
  induction l generalizing head with
  | nil => exact stack
  | cons a l ih =>
    obtain ⟨first, rest⟩ := stack
    refine ⟨first, ?_⟩
    rw [same a List.mem_cons_self]
    exact ih rest fun b member => same b (List.mem_cons_of_mem a member)

/-! ## Neighbours -/

theorem Chain.head_mem (chain : Chain links before (some a) l) : a ∈ l := by
  cases l with
  | nil => cases chain
  | cons b l =>
    cases chain.1
    exact List.mem_cons_self

theorem Chain.next_mem (chain : Chain links before head l) (member : a ∈ l)
    (next : (links a).next = some c) : c ∈ l := by
  induction l generalizing before head with
  | nil => cases member
  | cons b l ih =>
    obtain ⟨-, -, rest⟩ := chain
    rcases List.mem_cons.mp member with rfl | later
    · rw [next] at rest
      exact List.mem_cons_of_mem a rest.head_mem
    · exact List.mem_cons_of_mem b (ih rest later)

/-- The node in front of another is in the list too, or it is `before`. -/
theorem Chain.prev_mem (chain : Chain links before head l) (member : a ∈ l)
    (prev : (links a).prev = some b) : b ∈ l ∨ before = some b := by
  induction l generalizing before head with
  | nil => cases member
  | cons x l ih =>
    obtain ⟨-, first, rest⟩ := chain
    rcases List.mem_cons.mp member with rfl | later
    · exact .inr (first.symm.trans prev)
    · rcases ih rest later with inside | same
      · exact .inl (List.mem_cons_of_mem x inside)
      · cases same
        exact .inl List.mem_cons_self

theorem Chain.prev_some (chain : Chain links (some b) head l) (member : a ∈ l) :
    (links a).prev ≠ none := by
  induction l generalizing b head with
  | nil => cases member
  | cons x l ih =>
    obtain ⟨-, first, rest⟩ := chain
    rcases List.mem_cons.mp member with rfl | later
    · simp [first]
    · exact ih rest later

/-- Only the first node has `before` in front of it. -/
theorem Chain.prev_eq (chain : Chain links before head l) (nodup : l.Nodup)
    (outside : ∀ b, before = some b → b ∉ l) (member : a ∈ l) :
    (links a).prev = before ↔ head = some a := by
  cases l with
  | nil => cases member
  | cons x l =>
    obtain ⟨rfl, first, rest⟩ := chain
    have fresh := (List.nodup_cons.mp nodup).1
    rcases List.mem_cons.mp member with rfl | later
    · simp [first]
    · constructor
      · intro prev
        cases before with
        | none => exact absurd prev (rest.prev_some later)
        | some b =>
          have away := outside b rfl
          rcases rest.prev_mem later prev with inside | same
          · exact absurd (List.mem_cons_of_mem x inside) away
          · cases same
            exact absurd List.mem_cons_self away
      · intro same
        cases same
        exact absurd later fresh

/-- What follows a node in the middle of a list. -/
theorem Chain.next_eq {rest : List α} (chain : Chain links before head (l ++ a :: rest)) :
    (links a).next = rest.head? := by
  induction l generalizing before head with
  | nil =>
    obtain ⟨-, -, tail⟩ := chain
    cases rest with
    | nil => exact tail
    | cons b rest => exact tail.1
  | cons x l ih => exact ih chain.2.2

theorem Chain.head_eq (chain : Chain links before head l) : head = l.head? := by
  cases l with
  | nil => exact chain
  | cons a l => exact chain.1

/-! ## Adding and removing -/

section Update

variable [DecidableEq α]

theorem pushFront_other (away : b ≠ a) (notHead : head ≠ some b) :
    pushFront links head a b = links b := by
  cases head with
  | none => simp [pushFront, away]
  | some x =>
    have different : b ≠ x := fun same => notHead (same ▸ rfl)
    simp [pushFront, away, different]

theorem Chain.pushFront (chain : Chain links none head l) (nodup : l.Nodup) (fresh : a ∉ l) :
    Chain (pushFront links head a) none (some a) (a :: l) := by
  cases l with
  | nil =>
    cases chain
    simp [Links.pushFront, Chain]
  | cons b l =>
    obtain ⟨rfl, first, rest⟩ := chain
    obtain ⟨fresh', nodup⟩ := List.nodup_cons.mp nodup
    simp only [List.mem_cons, not_or] at fresh
    have here : Links.pushFront links (some b) a a = ⟨some b, none⟩ := by
      simp [Links.pushFront, fresh.1]
    have there : Links.pushFront links (some b) a b = ⟨(links b).next, some a⟩ := by
      simp [Links.pushFront, Ne.symm fresh.1]
    refine ⟨rfl, by rw [here], ?_⟩
    rw [here]
    refine ⟨rfl, by rw [there], ?_⟩
    rw [there]
    refine rest.congr fun c member => pushFront_other ?_ ?_
    · exact fun same => fresh.2 (same ▸ member)
    · exact fun same => fresh' (Option.some.inj same ▸ member)

/-- Other lists do not notice. -/
theorem pushFront_frame (chain : Chain links none head l) (notSelf : b ≠ a) (notIn : b ∉ l) :
    Links.pushFront links head a b = links b := by
  refine pushFront_other notSelf ?_
  rintro rfl
  exact notIn chain.head_mem

theorem detach_other (notNext : (links a).next ≠ some b) (notPrev : (links a).prev ≠ some b) :
    detach links a b = links b := by
  simp only [detach]
  cases prev : (links a).prev with
  | none =>
    cases next : (links a).next with
    | none => rfl
    | some c =>
      have different : b ≠ c := fun same => notNext (next.trans (same ▸ rfl))
      simp [different]
  | some x =>
    have away : b ≠ x := fun same => notPrev (prev.trans (same ▸ rfl))
    cases next : (links a).next with
    | none => simp [away]
    | some c =>
      have different : b ≠ c := fun same => notNext (next.trans (same ▸ rfl))
      simp [away, different]

theorem detach_frame (chain : Chain links none head l) (member : a ∈ l) (notIn : b ∉ l) :
    detach links a b = links b := by
  refine detach_other ?_ ?_
  · exact fun next => notIn (chain.next_mem member next)
  · intro prev
    rcases chain.prev_mem member prev with inside | same
    · exact notIn inside
    · cases same

/-- The node in front of `a` is now followed by what came after `a`. -/
theorem detach_prev (prev : (links a).prev = some b) (notNext : (links a).next ≠ some b) :
    detach links a b = ⟨(links a).next, (links b).prev⟩ := by
  simp only [detach, prev]
  cases next : (links a).next with
  | none => simp
  | some c =>
    have different : b ≠ c := fun same => notNext (next.trans (same ▸ rfl))
    simp [different]

theorem detach_next (next : (links a).next = some c) (notPrev : (links a).prev ≠ some c) :
    detach links a c = ⟨(links c).next, (links a).prev⟩ := by
  simp only [detach, next]
  cases prev : (links a).prev with
  | none => simp
  | some x =>
    have different : c ≠ x := fun same => notPrev (prev.trans (same ▸ rfl))
    simp [different]

/-- Taking out a node anywhere in a list. -/
theorem Chain.detach_from (chain : Chain links before head l) (nodup : l.Nodup)
    (outside : ∀ b, before = some b → b ∉ l) (member : a ∈ l) :
    Chain (detach links a) before (if head = some a then (links a).next else head) (l.erase a) := by
  induction l generalizing before head with
  | nil => cases member
  | cons x l ih =>
    obtain ⟨rfl, first, rest⟩ := chain
    obtain ⟨fresh, distinct⟩ := List.nodup_cons.mp nodup
    by_cases same : a = x
    · subst same
      rw [if_pos rfl, List.erase_cons_head]
      cases l with
      | nil => exact rest
      | cons c l =>
        obtain ⟨next, back, tail⟩ := rest
        have later := (List.nodup_cons.mp distinct).1
        have notPrev : (links a).prev ≠ some c := by
          rw [first]
          exact fun same => outside c same (by simp)
        have here := detach_next next notPrev
        refine ⟨next, by rw [here, first], ?_⟩
        rw [here]
        refine tail.congr fun y inside => detach_other ?_ ?_
        · rw [next]
          intro equal
          cases equal
          exact later inside
        · rw [first]
          exact fun same => outside y same (by simp [inside])
    · have inside : a ∈ l := by
        rcases List.mem_cons.mp member with equal | inside
        · exact absurd equal same
        · exact inside
      rw [if_neg (fun equal => same (Option.some.inj equal).symm),
        List.erase_cons_tail (by simpa using Ne.symm same)]
      have apart : ∀ b, some x = some b → b ∉ l := by
        intro b equal
        cases equal
        exact fresh
      have after := ih rest distinct apart inside
      have notNext : (links a).next ≠ some x := fun next => fresh (rest.next_mem inside next)
      have start := rest.prev_eq distinct apart inside
      by_cases second : (links x).next = some a
      · have here := detach_prev (start.mpr second) notNext
        rw [if_pos second] at after
        refine ⟨rfl, by rw [here, first], ?_⟩
        rw [here]
        exact after
      · have here := detach_other notNext fun prev => second (start.mp prev)
        rw [if_neg second] at after
        refine ⟨rfl, by rw [here, first], ?_⟩
        rw [here]
        exact after

theorem Chain.detach (chain : Chain links none head l) (nodup : l.Nodup) (member : a ∈ l) :
    Chain (detach links a) none (headWithout links head a) (l.erase a) := by
  have apart : ∀ b, none = some b → b ∉ l := by
    intro b equal
    cases equal
  have start := chain.prev_eq nodup apart member
  have after := chain.detach_from nodup apart member
  have same : headWithout links head a = if head = some a then (links a).next else head := by
    simp only [headWithout]
    cases prev : (links a).prev with
    | none => rw [if_pos (start.mp prev)]
    | some b =>
      rw [if_neg]
      intro first
      rw [start.mpr first] at prev
      cases prev
  rw [same]
  exact after

theorem Stack.push (stack : Stack links head l) (fresh : a ∉ l) :
    Stack (pushStack links head a) (some a) (a :: l) := by
  refine ⟨rfl, ?_⟩
  simp only [pushStack, Function.update_self]
  refine stack.congr fun b member => ?_
  rw [Function.update_of_ne]
  exact fun same => fresh (same ▸ member)

theorem pushStack_other (away : b ≠ a) : pushStack links head a b = links b := by
  rw [pushStack, Function.update_of_ne away]

end Update

/-- Nodes linked one to the next. -/
theorem stack_range' (links : Nat → Link Nat) (i n : Nat)
    (next : ∀ j, i ≤ j → j < i + n → (links j).next = if j + 1 < i + n then some (j + 1) else none) :
    Stack links (if 0 < n then some i else none) (List.range' i n) := by
  induction n generalizing i with
  | zero => rfl
  | succ n ih =>
    refine ⟨rfl, ?_⟩
    rw [next i (by omega) (by omega)]
    have rest := ih (i + 1) fun j low high => by
      rw [next j (by omega) (by omega)]
      exact if_congr (by omega) rfl rfl
    have same : (if i + 1 < i + (n + 1) then some (i + 1) else none) =
        if 0 < n then some (i + 1) else none := if_congr (by omega) rfl rfl
    rw [same]
    exact rest

/-! ## Walking -/

/-- Follow `next` to the first node that passes the test, for at most `fuel` nodes. -/
def search (links : α → Link α) (test : α → Bool) : Nat → Option α → Option α
  | 0, _ => none
  | _, none => none
  | fuel + 1, some a => if test a then some a else search links test fuel (links a).next

theorem Chain.search (chain : Chain links before head l) (test : α → Bool) {fuel : Nat}
    (enough : l.length ≤ fuel) : search links test fuel head = l.find? test := by
  induction l generalizing before head fuel with
  | nil =>
    cases chain
    cases fuel <;> rfl
  | cons a l ih =>
    obtain ⟨rfl, -, rest⟩ := chain
    cases fuel with
    | zero => simp at enough
    | succ fuel =>
      rw [List.length_cons] at enough
      simp only [Links.search, List.find?_cons]
      cases test a with
      | true => rfl
      | false => exact ih rest (by omega)

/-! ## Buckets -/

section Buckets

variable {β : Type*} [DecidableEq β] {heads : β → Option α} {key : α → β}

/-- A hash table with a list for each key: `l` holds its nodes, the one added last
first, and every list has those of its key in the same order. -/
def Buckets (links : α → Link α) (heads : β → Option α) (key : α → β) (l : List α) : Prop :=
  ∀ b, Chain links none (heads b) (l.filter fun a => key a = b)

theorem Buckets.congr {key' : α → β} (table : Buckets links heads key l)
    (same : ∀ a ∈ l, other a = links a) (keys : ∀ a ∈ l, key' a = key a) :
    Buckets other heads key' l := by
  intro b
  have filtered : l.filter (fun a => key' a = b) = l.filter fun a => key a = b :=
    List.filter_congr fun a member => by rw [keys a member]
  rw [filtered]
  exact (table b).congr fun a member => same a (List.mem_of_mem_filter member)

theorem Buckets.search (table : Buckets links heads key l) (test : α → Bool) {b : β} {fuel : Nat}
    (enough : l.length ≤ fuel) (hit : ∀ a ∈ l, test a → key a = b) :
    search links test fuel (heads b) = l.find? test := by
  have short : (l.filter fun a => key a = b).length ≤ fuel := by
    have fewer := List.length_filter_le (fun a => key a = b) l
    omega
  rw [(table b).search test short, List.find?_filter]
  refine List.find?_congr fun a member => ?_
  cases passed : test a with
  | false => simp
  | true => simp [hit a member passed]

variable [DecidableEq α]

theorem Buckets.insert (table : Buckets links heads key l) (nodup : l.Nodup) (fresh : a ∉ l) :
    Buckets (pushFront links (heads (key a)) a) (Function.update heads (key a) (some a)) key
      (a :: l) := by
  intro b
  by_cases same : key a = b
  · subst same
    rw [Function.update_self, List.filter_cons_of_pos (by simp)]
    exact (table (key a)).pushFront (nodup.filter _) fun member => fresh (List.mem_of_mem_filter member)
  · rw [Function.update_of_ne (Ne.symm same), List.filter_cons_of_neg (by simpa using same)]
    refine (table b).congr fun c member => ?_
    obtain ⟨inside, here⟩ := List.mem_filter.mp member
    refine pushFront_frame (table (key a)) ?_ ?_
    · exact fun equal => fresh (equal ▸ inside)
    · intro there
      have elsewhere := (List.mem_filter.mp there).2
      simp only [decide_eq_true_eq] at here elsewhere
      exact same (elsewhere.symm.trans here)

theorem Buckets.remove (table : Buckets links heads key l) (nodup : l.Nodup) (member : a ∈ l) :
    Buckets (detach links a)
      (Function.update heads (key a) (headWithout links (heads (key a)) a)) key (l.erase a) := by
  have inside : a ∈ l.filter fun c => key c = key a := List.mem_filter.mpr ⟨member, by simp⟩
  intro b
  rw [← List.erase_filter]
  by_cases same : key a = b
  · subst same
    rw [Function.update_self]
    exact (table (key a)).detach (nodup.filter _) inside
  · have away : a ∉ l.filter fun c => key c = b := fun here => same (by simpa using (List.mem_filter.mp here).2)
    rw [Function.update_of_ne (Ne.symm same), List.erase_of_not_mem away]
    refine (table b).congr fun c here => detach_frame (table (key a)) inside ?_
    intro there
    have first := (List.mem_filter.mp here).2
    have second := (List.mem_filter.mp there).2
    simp only [decide_eq_true_eq] at first second
    exact same (second.symm.trans first)

/-- Nodes outside the table do not notice. -/
theorem Buckets.insert_frame (table : Buckets links heads key l) (notSelf : c ≠ a) (notIn : c ∉ l) :
    pushFront links (heads (key a)) a c = links c :=
  pushFront_frame (table (key a)) notSelf fun member => notIn (List.mem_of_mem_filter member)

theorem Buckets.remove_frame (table : Buckets links heads key l) (member : a ∈ l) (notIn : c ∉ l) :
    detach links a c = links c :=
  detach_frame (table (key a)) (List.mem_filter.mpr ⟨member, by simp⟩) fun there =>
    notIn (List.mem_of_mem_filter there)

end Buckets

end Fdgw.Links
