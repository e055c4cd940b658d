import Chaining.Base.Runs
import Chaining.Poll.Epoller
import Mathlib.Algebra.Order.Ring.Nat

/-! # The list that a wait fills

`epoll_wait` reports no more than the list it is given has room for, and what it leaves stays ready for
the next wait. `Epoller::wait` doubles the list after every wait that has filled it, so that there are
only so many waits in a run that leave something: each of them doubles the list, and a list that has
room for what is ready leaves nothing. -/

namespace Chaining.Poll.EventList

open Chaining.Base.Runs Chaining.Outcome Chaining.Poll.Events Chaining.Poll.Epoller

/-- An event: `data.ptr` and `events`. -/
abbrev ActivatedEvent := Addr × BitVec 32

/-- What `epoll_wait` finds: the events that are ready, in the order in which it would report them; or
it fails, or is interrupted. -/
inductive Wait where
  | ready (events : List ActivatedEvent)
  | failed

/-- `Epoller::wait`, as far as `activatedfds_` is concerned, of which this is the size: what the wait
reports, and the size afterwards. -/
def exec (size : ℕ) : Wait → Except Fault (ℕ × List ActivatedEvent)
  | .failed => .ok (size, [])
  | .ready events =>
    let reported := events.take size
    let nret := reported.length
    if nret = size then .ok (size * 2, reported) else .ok (size, reported)

/-- The wait leaves something that is ready. -/
def leaves (reported : List ActivatedEvent) : Wait → Bool
  | .failed => false
  | .ready events => reported ≠ events

/-- How many waits of a run leave something. -/
def incomplete (waits : List Wait) (answers : List (List ActivatedEvent)) : ℕ :=
  ((waits.zip answers).filter fun w => leaves w.2 w.1).length

/-- There are never more than `peak` events ready. -/
def Below (peak : ℕ) : Wait → Prop
  | .failed => True
  | .ready events => events.length ≤ peak

variable {size size' peak : ℕ} {w : Wait} {reported : List ActivatedEvent}

/-- **One wait** leaves something only if it doubles the list, and it doubles no list that had room
for twice as much. -/
theorem exec_size (h : exec size w = .ok (size', reported)) (hw : Below peak w) :
    (size' = size ∧ leaves reported w = false) ∨ (size' = size * 2 ∧ size ≤ peak) := by
  cases w with
  | failed =>
    cases h
    exact Or.inl ⟨rfl, rfl⟩
  | ready events =>
    have hlen : (events.take size).length = min size events.length := List.length_take
    have hpeak : events.length ≤ peak := hw
    unfold exec at h
    dsimp only at h
    split_ifs at h with hfull
    · cases h
      exact Or.inr ⟨rfl, by omega⟩
    · cases h
      have hall : events.take size = events := List.take_of_length_le (by omega)
      exact Or.inl ⟨rfl, by simp [leaves, hall]⟩

theorem incomplete_cons (w : Wait) (waits : List Wait) (reported : List ActivatedEvent)
    (answers : List (List ActivatedEvent)) :
    incomplete (w :: waits) (reported :: answers) =
      (if leaves reported w then 1 else 0) + incomplete waits answers := by
  unfold incomplete
  rw [List.zip_cons_cons, List.filter_cons]
  split_ifs <;> simp [Nat.add_comm]

/-- **Waits that leave something are few**: in every run of waits, each of them doubles the list that
`epoll_wait` fills, and the list never has more room than it was constructed with or twice what was
ready at once. -/
theorem incomplete_bounded {waits : List Wait} {answers : List (List ActivatedEvent)}
    (hrun : Run exec size waits answers size') (hpeak : ∀ w ∈ waits, Below peak w) :
    size * 2 ^ incomplete waits answers ≤ size' ∧ size' ≤ max size (2 * peak) := by
  induction hrun with
  | nil size => simp [incomplete]
  | @cons size size₁ size₂ w reported waits answers he _ ih =>
    obtain ⟨hgrows, hle⟩ := ih fun w' hw' => hpeak w' (List.mem_cons_of_mem w hw')
    rw [incomplete_cons]
    rcases exec_size he (hpeak w List.mem_cons_self) with ⟨rfl, hnone⟩ | ⟨rfl, hsize⟩
    · rw [hnone, if_neg Bool.false_ne_true, Nat.zero_add]
      exact ⟨hgrows, hle⟩
    · refine ⟨le_trans ?_ hgrows, hle.trans (by omega)⟩
      calc size * 2 ^ ((if leaves reported w then 1 else 0) + incomplete waits answers)
          ≤ size * 2 ^ (1 + incomplete waits answers) := by
            refine Nat.mul_le_mul_left _ (Nat.pow_le_pow_right Nat.two_pos ?_)
            split_ifs <;> omega
        _ = size * 2 * 2 ^ incomplete waits answers := by rw [Nat.pow_add, Nat.pow_one, mul_assoc]

/-- Three events stay ready, and the list has room for one at the beginning. -/
def threeReady : List Wait := List.replicate 3 (.ready [(1, EPOLLIN), (2, EPOLLIN), (3, EPOLLIN)])

/-- The third wait reports all of them. -/
theorem incomplete_bounded_three :
    Run exec 1 threeReady [[(1, EPOLLIN)], [(1, EPOLLIN), (2, EPOLLIN)],
        [(1, EPOLLIN), (2, EPOLLIN), (3, EPOLLIN)]] 4 ∧
      1 * 2 ^ incomplete threeReady [[(1, EPOLLIN)], [(1, EPOLLIN), (2, EPOLLIN)],
        [(1, EPOLLIN), (2, EPOLLIN), (3, EPOLLIN)]] ≤ 4 ∧ 4 ≤ max 1 (2 * 3) := by
  have hrun : Run exec 1 threeReady [[(1, EPOLLIN)], [(1, EPOLLIN), (2, EPOLLIN)],
      [(1, EPOLLIN), (2, EPOLLIN), (3, EPOLLIN)]] 4 :=
    .cons rfl (.cons rfl (.cons rfl (.nil _)))
  refine ⟨hrun, incomplete_bounded hrun fun w hw => ?_⟩
  rw [List.eq_of_mem_replicate hw]
  exact le_refl 3

end Chaining.Poll.EventList
