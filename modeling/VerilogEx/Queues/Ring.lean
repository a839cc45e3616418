import VerilogEx.Queues.BoundedQueue
import VerilogEx.Queues.WrapPointer

/-! A ring buffer with wrap pointers implements a bounded queue of `2 ^ k` items. -/

namespace VerilogEx.Queues

@[ext] structure Ring (k : ℕ) (α : Type*) where
  mem : BitVec k → α
  wr : BitVec (k + 1)
  rd : BitVec (k + 1)

namespace Ring

variable {k : ℕ} {α : Type*} (r : Ring k α)

def items : List α := (List.range (count r.wr r.rd)).map fun i => r.mem (slot r.rd i)

def Valid : Prop := count r.wr r.rd ≤ 2 ^ k

def push (v : α) : Ring k α :=
  { r with mem := fun a => if a = r.wr.setWidth k then v else r.mem a, wr := r.wr + 1 }

def pop : Ring k α := { r with rd := r.rd + 1 }

@[simp] lemma length_items : r.items.length = count r.wr r.rd := by simp [items]

lemma items_eq_nil : r.items = [] ↔ r.wr = r.rd := by
  rw [← count_eq_zero, ← length_items, List.length_eq_zero_iff]

lemma count_lt (h : count r.wr r.rd < 2 ^ k) : count r.wr r.rd + 1 < 2 ^ (k + 1) := by
  have hk := two_pow_pos k
  rw [Nat.pow_succ]
  omega

lemma count_push (v : α) (h : count r.wr r.rd < 2 ^ k) :
    count (r.push v).wr (r.push v).rd = count r.wr r.rd + 1 :=
  count_succ_left (r.count_lt h)

lemma count_pop (h : r.wr ≠ r.rd) : count r.pop.wr r.pop.rd = count r.wr r.rd - 1 :=
  count_succ_right h

lemma items_push (v : α) (h : count r.wr r.rd < 2 ^ k) : (r.push v).items = r.items ++ [v] := by
  have hold : ∀ i ∈ List.range (count r.wr r.rd),
      (r.push v).mem (slot r.rd i) = r.mem (slot r.rd i) := by
    intro i hi
    have hlt : i < count r.wr r.rd := List.mem_range.mp hi
    have hne : slot r.rd i ≠ r.wr.setWidth k := by
      rw [← slot_count r.wr r.rd, ne_eq, slot_inj r.rd (by omega) h]
      omega
    simp [push, hne]
  have hnew : (r.push v).mem (slot r.rd (count r.wr r.rd)) = v := by
    simp [push, slot_count]
  unfold items
  rw [count_push r v h, List.range_succ, List.map_append, List.map_singleton]
  change (List.range _).map (fun i => (r.push v).mem (slot r.rd i)) ++
    [(r.push v).mem (slot r.rd _)] = _
  rw [hnew, List.map_congr_left hold]

lemma items_pop (h : r.wr ≠ r.rd) : r.items = r.mem (r.rd.setWidth k) :: r.pop.items := by
  have hpos : count r.wr r.rd ≠ 0 := fun hz => h (count_eq_zero.mp hz)
  obtain ⟨n, hn⟩ := Nat.exists_eq_succ_of_ne_zero hpos
  have hp : count r.pop.wr r.pop.rd = n := by rw [count_pop r h, hn, Nat.succ_sub_one]
  unfold items
  rw [hp, hn, List.range_succ_eq_map, List.map_cons, List.map_map, slot_zero]
  simp only [Function.comp_def, slot_succ]
  rfl

lemma head_items (h : r.items ≠ []) : r.items.head h = r.mem (r.rd.setWidth k) := by
  have hne : r.wr ≠ r.rd := fun he => h (r.items_eq_nil.mpr he)
  simp only [items_pop r hne, List.head_cons]

def toQueue (h : r.Valid) : BoundedQueue α (2 ^ k) := ⟨r.items, r.length_items.trans_le h⟩

def cycle (v : Option α) (p : Bool) : Ring k α where
  mem := match v with
    | some v => if count r.wr r.rd < 2 ^ k then (r.push v).mem else r.mem
    | none => r.mem
  wr := if v.isSome ∧ count r.wr r.rd < 2 ^ k then r.wr + 1 else r.wr
  rd := if p ∧ r.wr ≠ r.rd then r.rd + 1 else r.rd

lemma cycle_none_false : r.cycle none false = r := by ext <;> simp [cycle]

lemma cycle_of_full (h : ¬count r.wr r.rd < 2 ^ k) (v : Option α) (p : Bool) :
    r.cycle v p = r.cycle none p := by
  cases v <;> ext <;> simp [cycle, h]

lemma cycle_of_empty (h : r.wr = r.rd) (v : Option α) (p : Bool) :
    r.cycle v p = r.cycle v false := by
  ext <;> simp [cycle, h]

lemma cycle_none_true (h : r.wr ≠ r.rd) : r.cycle none true = r.pop := by
  ext <;> simp [cycle, pop, h]

lemma cycle_some_false (h : count r.wr r.rd < 2 ^ k) (v : α) :
    r.cycle (some v) false = r.push v := by
  ext <;> simp [cycle, push, h]

lemma cycle_some_true (h : count r.wr r.rd < 2 ^ k) (hne : r.wr ≠ r.rd) (v : α) :
    r.cycle (some v) true = (r.push v).pop := by
  ext <;> simp [cycle, push, pop, h, hne]

lemma items_push_pop (v : α) (h : count r.wr r.rd < 2 ^ k) (hne : r.wr ≠ r.rd) :
    (r.push v).pop.items = r.items.tail ++ [v] := by
  have hpush : (r.push v).wr ≠ (r.push v).rd := by
    intro he
    have hc := count_eq_zero.mpr he
    rw [count_push r v h] at hc
    omega
  have hp := items_pop (r.push v) hpush
  rw [items_push r v h, items_pop r hne, List.cons_append, List.cons.injEq] at hp
  rw [← hp.2, items_pop r hne, List.tail_cons]

theorem items_cycle (v : Option α) (p : Bool) (hv : r.Valid) :
    (r.cycle v p).items = ((r.toQueue hv).cycle v p).items := by
  rw [BoundedQueue.items_cycle]
  change _ = (if p then r.items.tail else r.items) ++
    (if r.items.length < 2 ^ k then v.toList else [])
  rw [length_items]
  by_cases hf : count r.wr r.rd < 2 ^ k
  · by_cases he : r.wr = r.rd
    · have hi : r.items = [] := r.items_eq_nil.mpr he
      rw [cycle_of_empty r he]
      cases v with
      | none => simp [cycle_none_false, hi]
      | some v => simp [cycle_some_false r hf, items_push r v hf, hi, hf]
    · cases v with
      | none => cases p <;> simp [cycle_none_false, cycle_none_true r he, items_pop r he]
      | some v =>
        cases p
        · simp [cycle_some_false r hf, items_push r v hf, hf]
        · simp [cycle_some_true r hf he, items_push_pop r v hf he, hf]
  · have he : r.wr ≠ r.rd := by
      intro he
      rw [count_eq_zero.mpr he] at hf
      exact hf (two_pow_pos k)
    rw [cycle_of_full r hf]
    cases p <;> simp [cycle_none_false, cycle_none_true r he, items_pop r he, hf]

theorem valid_cycle (v : Option α) (p : Bool) (hv : r.Valid) : (r.cycle v p).Valid := by
  have hb := ((r.toQueue hv).cycle v p).bound
  rwa [← items_cycle r v p hv, length_items] at hb

end Ring

end VerilogEx.Queues
