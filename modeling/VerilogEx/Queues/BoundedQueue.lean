import Mathlib.Data.List.Basic
import Mathlib.Tactic.Common

/-! First-in first-out queues of bounded length. One cycle offers at most one
push and one pop, both decided on the contents before the cycle. -/

namespace VerilogEx.Queues

@[ext] structure BoundedQueue (α : Type*) (cap : ℕ) where
  items : List α
  bound : items.length ≤ cap

namespace BoundedQueue

variable {α : Type*} {cap : ℕ}

def nil : BoundedQueue α cap := ⟨[], Nat.zero_le cap⟩

def cycle (q : BoundedQueue α cap) (push : Option α) (pop : Bool) : BoundedQueue α cap where
  items := (if pop then q.items.tail else q.items) ++
    (if q.items.length < cap then push.toList else [])
  bound := by
    have hq := q.bound
    have hpush : push.toList.length ≤ 1 := by cases push <;> simp
    have hpop : q.items.tail.length = q.items.length - 1 := List.length_tail
    have hnil : ([] : List α).length = 0 := rfl
    rw [List.length_append]
    split_ifs <;> omega

lemma items_cycle (q : BoundedQueue α cap) (push : Option α) (pop : Bool) :
    (q.cycle push pop).items = (if pop then q.items.tail else q.items) ++
      (if q.items.length < cap then push.toList else []) := rfl

end BoundedQueue

end VerilogEx.Queues
