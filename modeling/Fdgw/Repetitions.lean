import Mathlib.Data.List.Destutter

/-! Lists that differ by immediate repetitions only. -/
namespace Fdgw.Repetitions

/-- `after` is `before` without some elements that repeat the one before them. -/
inductive OnlyRepeats {α : Type} : List α → List α → Prop where
  | nil : OnlyRepeats [] []
  | keep (x : α) (rest : OnlyRepeats before after) : OnlyRepeats (x :: before) (x :: after)
  | drop (x : α) (rest : OnlyRepeats (x :: before) after) : OnlyRepeats (x :: x :: before) after

namespace OnlyRepeats

variable {α : Type} {before after : List α} {x : α}

theorem refl (list : List α) : OnlyRepeats list list := by
  induction list with
  | nil => exact .nil
  | cons x list ih => exact .keep x ih

theorem mem_iff (repeats : OnlyRepeats before after) : x ∈ before ↔ x ∈ after := by
  induction repeats with
  | nil => rfl
  | keep y rest ih => simp [ih]
  | drop y rest ih =>
    rw [← ih]
    simp

theorem filter (p : α → Bool) (repeats : OnlyRepeats before after) :
    OnlyRepeats (before.filter p) (after.filter p) := by
  induction repeats with
  | nil => exact .nil
  | keep x rest ih =>
    by_cases held : p x = true
    · rw [List.filter_cons_of_pos held, List.filter_cons_of_pos held]
      exact .keep x ih
    · rw [List.filter_cons_of_neg held, List.filter_cons_of_neg held]
      exact ih
  | drop x rest ih =>
    by_cases held : p x = true
    · rw [List.filter_cons_of_pos held] at ih ⊢
      rw [List.filter_cons_of_pos held]
      exact .drop x ih
    · rw [List.filter_cons_of_neg held]
      exact ih

/-- The order of first occurrences stays the same. -/
theorem eraseDups [BEq α] [LawfulBEq α] (repeats : OnlyRepeats before after) : before.eraseDups = after.eraseDups := by
  induction count : before.length using Nat.strong_induction_on generalizing before after with
  | _ n ih =>
    cases repeats with
    | nil => rfl
    | @keep before after x rest =>
      have shorter : (before.filter fun y => !y == x).length < n := by
        have bound := List.length_filter_le (fun y => !y == x) before
        rw [List.length_cons] at count
        omega
      rw [List.eraseDups_cons, List.eraseDups_cons, ih _ shorter (rest.filter _) rfl]
    | @drop before after x rest =>
      have same : (x :: x :: before).eraseDups = (x :: before).eraseDups := by
        rw [List.eraseDups_cons, List.eraseDups_cons]
        simp
      rw [same]
      apply ih _ _ rest rfl
      rw [← count]
      simp

variable [DecidableEq α]

theorem destutter' (x : α) (list : List α) :
    OnlyRepeats (x :: list) (list.destutter' (· ≠ ·) x) := by
  induction list generalizing x with
  | nil => exact .refl [x]
  | cons y list ih =>
    by_cases same : x = y
    · subst same
      rw [List.destutter'_cons_neg _ (by simp)]
      exact .drop x (ih x)
    · rw [List.destutter'_cons_pos _ same]
      exact .keep x (ih y)

theorem destutter (list : List α) : OnlyRepeats list (list.destutter (· ≠ ·)) := by
  cases list with
  | nil => exact .nil
  | cons x list => exact destutter' x list

end OnlyRepeats

end Fdgw.Repetitions
