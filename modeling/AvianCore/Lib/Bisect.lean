import Mathlib

/-!
Binary search. The loop halves the distance between two indices; on a list in which the elements
that satisfy a predicate all come first, it finds where they end.
-/

namespace AvianCore.Lib
open List

/-- The halving loop between `low` and `high`, for at most `fuel` rounds. -/
def bisect (before : Nat → Bool) : Nat → Nat → Nat → Nat
  | 0, low, _ => low
  | fuel + 1, low, high =>
    if low < high then
      if before ((low + high) / 2) then bisect before fuel ((low + high) / 2 + 1) high
      else bisect before fuel low ((low + high) / 2)
    else low

theorem bisect_spec (before : Nat → Bool) {fuel low high : Nat} (order : low ≤ high) (enough : high - low ≤ fuel)
    (mono : ∀ i j, low ≤ i → i ≤ j → j < high → before j = true → before i = true) :
    low ≤ bisect before fuel low high ∧ bisect before fuel low high ≤ high ∧
      (∀ i, low ≤ i → i < bisect before fuel low high → before i = true) ∧
      (∀ i, bisect before fuel low high ≤ i → i < high → before i = false) := by
  induction fuel generalizing low high with
  | zero =>
    have same : low = high := by omega
    subst same
    unfold bisect
    exact ⟨le_rfl, le_rfl, by omega, by omega⟩
  | succ fuel ih =>
    unfold bisect
    by_cases more : low < high
    · rw [if_pos more]
      have middle : low ≤ (low + high) / 2 ∧ (low + high) / 2 < high := by omega
      by_cases left : before ((low + high) / 2) = true
      · rw [if_pos left]
        have right : (low + high) / 2 + 1 ≤ high := middle.2
        obtain ⟨above, below, hits, misses⟩ := ih right (by omega) (fun i j lower => mono i j (by omega))
        refine ⟨by omega, below, fun i lower upper => ?_, misses⟩
        by_cases past : (low + high) / 2 < i
        · exact hits i past upper
        · exact mono i _ lower (by omega) middle.2 left
      · rw [if_neg left]
        obtain ⟨above, below, hits, misses⟩ := ih middle.1 (by omega)
          (fun i j lower upper inside => mono i j lower upper (by omega))
        refine ⟨above, by omega, hits, fun i lower upper => ?_⟩
        by_cases short : i < (low + high) / 2
        · exact misses i lower short
        by_contra hit
        have reached : before i = true := by simpa using hit
        exact left (mono _ i middle.1 (by omega) upper reached)
    · rw [if_neg more]
      exact ⟨le_rfl, order, by omega, by omega⟩

variable {α : Type}

theorem dropWhile_sorted {p : α → Bool} {l : List α}
    (sorted : l.Pairwise fun a b => p b = true → p a = true) : ∀ a ∈ l.dropWhile p, p a = false := by
  induction l with
  | nil => simp
  | cons first rest ih =>
    obtain ⟨earlier, later⟩ := pairwise_cons.mp sorted
    by_cases passed : p first = true
    · rw [dropWhile_cons_of_pos passed]
      exact ih later
    rw [dropWhile_cons_of_neg passed]
    intro a member
    rcases mem_cons.mp member with same | member
    · rw [same]
      exact Bool.not_eq_true _ ▸ passed
    · by_contra hit
      exact passed (earlier a member (by simpa using hit))

/-- On a list whose elements with `p` come first, the search from `head` on finds how many of
them there are. -/
theorem bisect_eq_takeWhile (l : List α) (p : α → Bool) (before : Nat → Bool) {head : Nat}
    (reads : ∀ i a, l[i]? = some a → before i = p a) (inside : head ≤ l.length)
    (sorted : (l.drop head).Pairwise fun a b => p b = true → p a = true) {fuel : Nat}
    (enough : l.length - head ≤ fuel) :
    bisect before fuel head l.length = head + ((l.drop head).takeWhile p).length := by
  have mono : ∀ i j, head ≤ i → i ≤ j → j < l.length → before j = true → before i = true := by
    intro i j lower order upper hit
    rcases Nat.lt_or_eq_of_le order with less | same
    · have first := reads i _ (List.getElem?_eq_getElem (by omega))
      have second := reads j _ (List.getElem?_eq_getElem upper)
      have ordered := pairwise_iff_getElem.mp sorted (i - head) (j - head)
        (by rw [length_drop]; omega) (by rw [length_drop]; omega) (by omega)
      simp only [getElem_drop, Nat.add_sub_cancel' lower, Nat.add_sub_cancel' (lower.trans order)] at ordered
      rw [first]
      exact ordered (second ▸ hit)
    · exact same ▸ hit
  obtain ⟨above, below, hits, misses⟩ := bisect_spec before inside enough mono
  generalize bisect before fuel head l.length = r at above below hits misses
  have all : ∀ a ∈ (l.drop head).take (r - head), p a = true := by
    intro a member
    obtain ⟨i, found⟩ := mem_iff_getElem?.mp member
    rw [List.getElem?_take] at found
    split_ifs at found with early
    rw [List.getElem?_drop] at found
    rw [← reads _ a found]
    exact hits (head + i) (by omega) (by omega)
  have stop : ((l.drop head).drop (r - head)).takeWhile p = [] := by
    rw [drop_drop, Nat.add_sub_cancel' above]
    by_cases last : r < l.length
    · have miss := misses r le_rfl last
      rw [reads r _ (List.getElem?_eq_getElem last)] at miss
      rw [drop_eq_getElem_cons last, takeWhile_cons, miss]
      rfl
    · rw [drop_eq_nil_of_le (by omega)]
      rfl
  have split : (l.drop head).takeWhile p = (l.drop head).take (r - head) := by
    nth_rewrite 1 [← take_append_drop (r - head) (l.drop head)]
    rw [takeWhile_append_of_pos all, stop, append_nil]
  rw [split, length_take, length_drop]
  omega

end AvianCore.Lib
