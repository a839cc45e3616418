import Mathlib.Tactic.Common

/-! A sender that waits until its item is done: meanwhile the item is in the channel, or
with the receiver, which is busy then. -/

namespace VerilogEx.Hdl

variable {α : Type*} {done : Bool} {idle : Prop} {request : Option α}

def Underway (done : Bool) (idle : Prop) (request : Option α) : Prop :=
  (done = true ∧ idle ∧ request = none) ∨ (done = false ∧ idle ∧ request ≠ none) ∨
    (done = false ∧ ¬idle ∧ request = none)

namespace Underway

lemma sent (hd : done = false) (hi : idle) (hr : request ≠ none) : Underway done idle request :=
  .inr (.inl ⟨hd, hi, hr⟩)

lemma taken (hd : done = false) (hi : ¬idle) (hr : request = none) : Underway done idle request :=
  .inr (.inr ⟨hd, hi, hr⟩)

lemma returned (hd : done = true) (hi : idle) (hr : request = none) : Underway done idle request :=
  .inl ⟨hd, hi, hr⟩

lemma of_request (h : Underway done idle request) (hr : request ≠ none) :
    done = false ∧ idle := by
  rcases h with ⟨-, -, h⟩ | ⟨hd, hi, -⟩ | ⟨-, -, h⟩
  · exact absurd h hr
  · exact ⟨hd, hi⟩
  · exact absurd h hr

lemma of_busy (h : Underway done idle request) (hi : ¬idle) : done = false ∧ request = none := by
  rcases h with ⟨-, h, -⟩ | ⟨-, h, -⟩ | ⟨hd, -, hr⟩
  · exact absurd h hi
  · exact absurd h hi
  · exact ⟨hd, hr⟩

lemma of_done (h : Underway done idle request) (hd : done = true) : idle ∧ request = none := by
  rcases h with ⟨-, hi, hr⟩ | ⟨h, -, -⟩ | ⟨h, -, -⟩
  · exact ⟨hi, hr⟩
  · exact absurd (hd.symm.trans h) Bool.noConfusion
  · exact absurd (hd.symm.trans h) Bool.noConfusion

lemma busy (h : Underway done idle request) (hd : done = false) (hr : request = none) : ¬idle := by
  rcases h with ⟨h, -, -⟩ | ⟨-, -, h⟩ | ⟨-, hi, -⟩
  · exact absurd (hd.symm.trans h) Bool.noConfusion
  · exact absurd hr h
  · exact hi

end Underway

end VerilogEx.Hdl
