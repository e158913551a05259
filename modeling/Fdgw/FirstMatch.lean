import Mathlib.Data.List.Basic

/-! Ordered rule lists in which the first applicable rule decides. When no rule
applies the verdict is the opposite of the last rule's, and an empty list
denies. The lists come in blocks, so that two lists with block by block the same
decision can be compared. -/
namespace Fdgw.FirstMatch

variable {ρ ι : Type*} {allows applies applies' : ρ → Bool} {f g : ι → List ρ} {items : List ι}

/-- The action of the first rule that applies. -/
def decision (allows applies : ρ → Bool) (rules : List ρ) : Option Bool :=
  (rules.find? applies).map allows

def lastAction (allows : ρ → Bool) (rules : List ρ) : Option Bool := rules.getLast?.map allows

def verdict (allows applies : ρ → Bool) (rules : List ρ) : Bool :=
  (decision allows applies rules).getD !(lastAction allows rules).getD true

@[simp] theorem decision_nil : decision allows applies [] = none := rfl

theorem decision_append (rules more : List ρ) : decision allows applies (rules ++ more) =
    (decision allows applies rules).or (decision allows applies more) := by
  unfold decision
  rw [List.find?_append]
  cases rules.find? applies <;> rfl

theorem decision_cons (rule : ρ) (rules : List ρ) : decision allows applies (rule :: rules) =
    if applies rule then some (allows rule) else decision allows applies rules := by
  unfold decision
  rw [List.find?_cons]
  cases applies rule <;> rfl

theorem decision_congr {rules : List ρ} (same : ∀ rule ∈ rules, applies rule = applies' rule) :
    decision allows applies rules = decision allows applies' rules := by
  induction rules with
  | nil => rfl
  | cons rule rules ih =>
    obtain ⟨here, others⟩ := List.forall_mem_cons.mp same
    rw [decision_cons, decision_cons, here, ih others]

theorem lastAction_append (rules more : List ρ) : lastAction allows (rules ++ more) =
    (lastAction allows more).or (lastAction allows rules) := by
  unfold lastAction
  rw [List.getLast?_append]
  cases more.getLast? <;> rfl

/-- Lists that decide alike and end alike block by block have the same verdict. -/
theorem verdict_flatMap
    (same : ∀ i ∈ items, decision allows applies (f i) = decision allows applies' (g i))
    (ends : ∀ i ∈ items, lastAction allows (f i) = lastAction allows (g i)) :
    verdict allows applies (items.flatMap f) = verdict allows applies' (items.flatMap g) := by
  have both : decision allows applies (items.flatMap f) = decision allows applies' (items.flatMap g) ∧
      lastAction allows (items.flatMap f) = lastAction allows (items.flatMap g) := by
    induction items with
    | nil => exact ⟨rfl, rfl⟩
    | cons i items ih =>
      obtain ⟨here, others⟩ := List.forall_mem_cons.mp same
      obtain ⟨end_, rest⟩ := List.forall_mem_cons.mp ends
      obtain ⟨decided, last⟩ := ih others rest
      simp only [List.flatMap_cons, decision_append, lastAction_append, here, end_, decided, last,
        and_self]
  rw [verdict, verdict, both.1, both.2]

theorem lastAction_flatMap {action : Bool}
    (silent : ∀ i ∈ items, lastAction allows (g i) = none → lastAction allows (f i) = none)
    (kept : ∀ i ∈ items, lastAction allows (g i) = some action → lastAction allows (f i) = some action)
    (last : lastAction allows (items.flatMap g) = some action) :
    lastAction allows (items.flatMap f) = some action := by
  have quiet : ∀ items : List ι, (∀ i ∈ items, lastAction allows (g i) = none → lastAction allows (f i) = none) →
      lastAction allows (items.flatMap g) = none → lastAction allows (items.flatMap f) = none := by
    intro items silent none
    induction items with
    | nil => rfl
    | cons i items ih =>
      obtain ⟨here, others⟩ := List.forall_mem_cons.mp silent
      rw [List.flatMap_cons, lastAction_append, Option.or_eq_none_iff] at none ⊢
      exact ⟨ih others none.1, here none.2⟩
  induction items with
  | nil => cases last
  | cons i items ih =>
    obtain ⟨here, others⟩ := List.forall_mem_cons.mp silent
    obtain ⟨first, rest⟩ := List.forall_mem_cons.mp kept
    rw [List.flatMap_cons, lastAction_append] at last ⊢
    cases later : lastAction allows (items.flatMap g) with
    | some found =>
      rw [later] at last ih
      rw [ih others rest last]
      rfl
    | none =>
      rw [later, Option.none_or] at last
      rw [quiet items others later, Option.none_or, first last]

/-- The deciding block is the first one that decides. -/
theorem decision_flatMap_eq_some : decision allows applies (items.flatMap f) = some action ↔
    ∃ before item after, items = before ++ item :: after ∧
      (∀ i ∈ before, decision allows applies (f i) = none) ∧
      decision allows applies (f item) = some action := by
  induction items with
  | nil => simp
  | cons i items ih =>
    rw [List.flatMap_cons, decision_append]
    cases here : decision allows applies (f i) with
    | some found =>
      constructor
      · intro equal
        exact ⟨[], i, items, rfl, by simp, here.trans equal⟩
      · rintro ⟨before, item, after, shape, silent, decided⟩
        cases before with
        | nil =>
          cases shape
          rw [here] at decided
          exact decided
        | cons j before =>
          cases shape
          simp [here] at silent
    | none =>
      rw [Option.none_or, ih]
      constructor
      · rintro ⟨before, item, after, shape, silent, decided⟩
        exact ⟨i :: before, item, after, by rw [shape]; rfl,
          List.forall_mem_cons.mpr ⟨here, silent⟩, decided⟩
      · rintro ⟨before, item, after, shape, silent, decided⟩
        cases before with
        | nil =>
          cases shape
          rw [here] at decided
          cases decided
        | cons j before =>
          cases shape
          exact ⟨before, item, after, rfl, (List.forall_mem_cons.mp silent).2, decided⟩

/-- A list that ends in a denial denies exactly what a rule denies. -/
theorem verdict_eq_false (ends : lastAction allows rules = some false) :
    verdict allows applies rules = false ↔ decision allows applies rules = some false := by
  rw [verdict, ends]
  cases decision allows applies rules <;> simp

end Fdgw.FirstMatch
