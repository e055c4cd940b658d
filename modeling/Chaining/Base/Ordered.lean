import Mathlib.Data.List.Sort
import Mathlib.Data.List.TakeWhile
import Mathlib.Order.Defs.Unbundled

/-! # Lists kept in order

A multiset ordered by a comparison `lt` is the list of its elements in that order: `OrderedList lt`
carries the proof that no element stands before a smaller one. A new element goes behind those it is
not smaller than (`insert`), an element equivalent to a given one is looked up by two comparisons
(`find`), and the elements up to the first that fails a test can be taken off the front
(`extract`). The elements themselves may be changed in place by a function that the comparison does
not see (`map`). -/

namespace Chaining.Base.Ordered

variable {α : Type*} {lt : α → α → Prop}

/-- The elements, none before a smaller one. -/
structure OrderedList (lt : α → α → Prop) where
  toList : List α
  ordered : toList.Pairwise fun a b => ¬ lt b a

namespace OrderedList

def empty : OrderedList lt := ⟨[], .nil⟩

theorem pairwise_orderedInsert [DecidableRel lt] [IsTrans α lt] [Std.Irrefl lt] (a : α) :
    ∀ {l : List α}, l.Pairwise (fun a b => ¬ lt b a) →
      (l.orderedInsert lt a).Pairwise fun a b => ¬ lt b a
  | [], _ => List.pairwise_singleton _ _
  | b :: l, h => by
    obtain ⟨hb, hl⟩ := List.pairwise_cons.mp h
    rw [List.orderedInsert_cons]
    split_ifs with hab
    · refine List.pairwise_cons.mpr ⟨fun c hc hca => ?_, h⟩
      rcases List.mem_cons.mp hc with rfl | hc
      · exact irrefl_of lt a (trans_of lt hab hca)
      · exact hb c hc (trans_of lt hca hab)
    · refine List.pairwise_cons.mpr ⟨fun c hc => ?_, pairwise_orderedInsert a hl⟩
      rcases (List.mem_orderedInsert lt).mp hc with rfl | hc
      · exact hab
      · exact hb c hc

/-- The element is put before the first that is greater. -/
def insert [DecidableRel lt] [IsTrans α lt] [Std.Irrefl lt] (l : OrderedList lt) (a : α) :
    OrderedList lt :=
  ⟨l.toList.orderedInsert lt a, pairwise_orderedInsert a l.ordered⟩

/-- An element that is neither smaller nor greater. -/
def find [DecidableRel lt] (l : OrderedList lt) (a : α) : Option α :=
  l.toList.find? fun b => ¬ lt a b ∧ ¬ lt b a

/-- While the front passes the test it is taken off: what was taken off, in order, and the rest. -/
def extract (p : α → Bool) (l : OrderedList lt) : List α × OrderedList lt :=
  (l.toList.takeWhile p, ⟨l.toList.dropWhile p, l.ordered.sublist (List.dropWhile_sublist p)⟩)

/-- The elements are changed where the comparison does not look. -/
def map (l : OrderedList lt) (f : α → α) (hf : ∀ a b, lt (f a) (f b) ↔ lt a b) : OrderedList lt :=
  ⟨l.toList.map f, List.pairwise_map.mpr (l.ordered.imp fun h => mt (hf _ _).mp h)⟩

theorem perm_insert [DecidableRel lt] [IsTrans α lt] [Std.Irrefl lt] (l : OrderedList lt) (a : α) :
    (l.insert a).toList.Perm (a :: l.toList) := List.perm_orderedInsert lt a l.toList

theorem find_eq_none [DecidableRel lt] {l : OrderedList lt} {a : α} :
    l.find a = none ↔ ∀ b ∈ l.toList, lt a b ∨ lt b a := by
  unfold find
  rw [List.find?_eq_none]
  refine forall₂_congr fun b _ => ?_
  rw [decide_eq_true_eq, not_and_or, not_not, not_not]

theorem extract_append (p : α → Bool) (l : OrderedList lt) :
    (l.extract p).1 ++ (l.extract p).2.toList = l.toList := List.takeWhile_append_dropWhile

theorem extract_fst_pass {p : α → Bool} {l : OrderedList lt} {a : α} (h : a ∈ (l.extract p).1) :
    p a = true := List.mem_takeWhile_imp h

/-- **The stopping place.** If an element that fails the test makes all that are not smaller fail it,
nothing that passes the test is left behind. -/
theorem extract_snd_fail {p : α → Bool} {l : OrderedList lt}
    (hp : ∀ a b, p a = false → ¬ lt b a → p b = false) {a : α} (h : a ∈ (l.extract p).2.toList) :
    p a = false := by
  obtain ⟨l, hl⟩ := l
  unfold extract at h
  dsimp only at h
  induction l with
  | nil => exact absurd h List.not_mem_nil
  | cons b l ih =>
    obtain ⟨hb, hl'⟩ := List.pairwise_cons.mp hl
    cases hpb : p b with
    | true =>
      rw [List.dropWhile_cons_of_pos hpb] at h
      exact ih hl' h
    | false =>
      rw [List.dropWhile_cons_of_neg (by simp [hpb])] at h
      rcases List.mem_cons.mp h with rfl | h
      · exact hpb
      · exact hp b a hpb (hb a h)

end OrderedList

end Chaining.Base.Ordered
