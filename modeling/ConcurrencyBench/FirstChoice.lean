import Mathlib.Data.List.Basic

/-!
# The first choice from a list

Of the eligible elements of a list the first preferred one is chosen, or the first one if
none is preferred. The choice can be described by where it stands in the list, and it does
not depend on elements that are not eligible, wherever they stand.
-/

namespace FirstChoice

universe u v
variable {α : Type u} {β : Type v}

/-- The first preferred one of the eligible elements, or else the first of them. -/
def choose (eligible preferred : α → Bool) (list : List α) : Option α :=
  ((list.filter eligible).find? preferred).or (list.filter eligible).head?

/-- The second list is the first with elements of a kind put in anywhere. -/
inductive Inserted (extra : α → Prop) : List α → List α → Prop
  | nil : Inserted extra [] []
  | keep (a : α) {list longer : List α} (rest : Inserted extra list longer) :
      Inserted extra (a :: list) (a :: longer)
  | insert (a : α) (kind : extra a) {list longer : List α} (rest : Inserted extra list longer) :
      Inserted extra list (a :: longer)

section Choice

variable {eligible preferred : α → Bool} {list : List α}

/-- Nothing is chosen exactly if nothing is eligible. -/
theorem choose_eq_none_iff :
    choose eligible preferred list = none ↔ ∀ a ∈ list, eligible a = false := by
  simp only [choose, Option.or_eq_none_iff, List.head?_eq_none_iff, List.filter_eq_nil_iff,
    Bool.not_eq_true]
  constructor
  · exact And.right
  · intro none
    refine ⟨?_, none⟩
    rw [List.find?_filter, List.find?_eq_none]
    intro a member
    simp [none a member]

/-- The chosen element is eligible. It is preferred, and no eligible one before it is, or none
is at all and no eligible one stands before it. -/
theorem choose_eq_some_iff {a : α} :
    choose eligible preferred list = some a ↔ eligible a = true ∧
      ∃ before after, list = before ++ a :: after ∧
        ((preferred a = true ∧ ∀ b ∈ before, eligible b = true → preferred b = false) ∨
          ((∀ b ∈ list, eligible b = true → preferred b = false) ∧
            ∀ b ∈ before, eligible b = false)) := by
  rw [choose, Option.or_eq_some_iff, List.find?_filter, List.head?_filter,
    List.find?_eq_some_iff_append, List.find?_eq_none, List.find?_eq_some_iff_append]
  simp only [decide_eq_true_eq, Bool.not_eq_true', decide_eq_false_iff_not, not_and,
    Bool.not_eq_true]
  constructor
  · rintro (⟨⟨fits, best⟩, before, after, split, first⟩ | ⟨none, fits, before, after, split, first⟩)
    · exact ⟨fits, before, after, split, Or.inl ⟨best, first⟩⟩
    · exact ⟨fits, before, after, split, Or.inr ⟨none, first⟩⟩
  · rintro ⟨fits, before, after, split, ⟨best, first⟩ | ⟨none, first⟩⟩
    · exact Or.inl ⟨⟨fits, best⟩, before, after, split, first⟩
    · exact Or.inr ⟨none, fits, before, after, split, first⟩

/-- Choosing among the images is choosing what is mapped. -/
theorem choose_map (f : β → α) (list : List β) :
    choose eligible preferred (list.map f) =
      (choose (eligible ∘ f) (preferred ∘ f) list).map f := by
  simp only [choose, List.filter_map, List.find?_map, List.head?_map, Option.map_or]

/-- Choosing among those kept is choosing what is kept as well. -/
theorem choose_filter (kept : α → Bool) :
    choose eligible preferred (list.filter kept) =
      choose (fun a => eligible a && kept a) preferred list := by
  simp [choose, List.filter_filter]

/-- The choice depends on the elements' own properties. -/
theorem choose_congr {eligible' preferred' : α → Bool}
    (sameEligible : ∀ a ∈ list, eligible a = eligible' a)
    (samePreferred : ∀ a ∈ list, preferred a = preferred' a) :
    choose eligible preferred list = choose eligible' preferred' list := by
  rw [choose, choose, List.filter_congr sameEligible]
  congr 1
  rw [List.find?_filter, List.find?_filter]
  induction list with
  | nil => rfl
  | cons a list inductionHypothesis =>
    rw [List.find?_cons, List.find?_cons, samePreferred a List.mem_cons_self]
    rw [inductionHypothesis]
    · exact fun b member => sameEligible b (List.mem_cons_of_mem a member)
    · exact fun b member => samePreferred b (List.mem_cons_of_mem a member)

/-- Elements that are not eligible may be put in anywhere. -/
theorem choose_inserted {extra : α → Prop} {longer : List α}
    (inserted : Inserted extra list longer) (useless : ∀ a, extra a → eligible a = false) :
    choose eligible preferred longer = choose eligible preferred list := by
  have same : longer.filter eligible = list.filter eligible := by
    induction inserted with
    | nil => rfl
    | keep a _ inductionHypothesis => simp only [List.filter_cons, inductionHypothesis]
    | insert a kind _ inductionHypothesis =>
      rw [List.filter_cons_of_neg (by simp [useless a kind]), inductionHypothesis]
  rw [choose, choose, same]

end Choice

end FirstChoice
