import Mathlib.Data.List.Basic

/-!
# One ordered queue shared by several lanes

A queue of tagged items keeps one order for all tags. The lane of a tag is
what a party that looks at that tag only can see of the queue.
-/

namespace TensorFlowOnSpark.Lane

universe u v

variable {κ : Type u} {β : Type v} [DecidableEq κ]

def lane (k : κ) (queue : List (κ × β)) : List β :=
  queue.filterMap fun item => if item.1 = k then some item.2 else none

@[simp] theorem lane_nil (k : κ) : lane k ([] : List (κ × β)) = [] := rfl

@[simp] theorem lane_cons_self (k : κ) (x : β) (queue : List (κ × β)) :
    lane k ((k, x) :: queue) = x :: lane k queue := by
  simp [lane]

theorem lane_cons_of_ne {j k : κ} (h : j ≠ k) (x : β) (queue : List (κ × β)) :
    lane k ((j, x) :: queue) = lane k queue := by
  simp [lane, h]

@[simp] theorem lane_append (k : κ) (queue queue' : List (κ × β)) :
    lane k (queue ++ queue') = lane k queue ++ lane k queue' := by
  simp [lane]

def slot (k : κ) (point : Option (κ × β)) : Option β :=
  point.bind fun item => if item.1 = k then some item.2 else none

@[simp] theorem slot_none (k : κ) : slot k (none : Option (κ × β)) = none := rfl

@[simp] theorem slot_some_self (k : κ) (x : β) : slot k (some (k, x)) = some x := by
  simp [slot]

theorem slot_some_of_ne {j k : κ} (h : j ≠ k) (x : β) : slot k (some (j, x)) = none := by
  simp [slot, h]

end TensorFlowOnSpark.Lane
