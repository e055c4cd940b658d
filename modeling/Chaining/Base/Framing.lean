import Chaining.Base.Lines

/-! # A stream of frames

A frame is a text behind which a delimiter is found for the first time (`Framed`), so that frames can
stand one after the other, each with the delimiter behind it, and a reader that has received a part of
that takes them off from its front by the search for the delimiter.

* `next_frame`: from any part of a stream the search finds the end of the first frame as soon as it has
  been received, and nothing before that.
* `exists_framed_block`: a line and a block of lines are a frame for the doubled end of a line, the one
  that makes the empty line. -/

namespace Chaining.Base.Framing

open Chaining.Base.Search Chaining.Base.Lines

variable {α : Type*} {d text rest content : List α}

/-- The delimiter behind the text is the first one. -/
def Framed (d text : List α) : Prop := FirstAt d (text ++ d) text.length

/-- What stands in a part of a list stands in the list. -/
theorem occursAt_extend {l l' : List α} (h : l <+: l') {i : ℕ} (hi : OccursAt d l i) :
    OccursAt d l' i := by
  obtain ⟨t, rfl⟩ := h
  rcases Nat.lt_or_ge l.length i with hlt | hle
  · have hnil : d = [] := by
      have hp : d <+: l.drop i := hi
      rwa [List.drop_eq_nil_of_le hlt.le, List.prefix_nil] at hp
    rw [hnil]
    exact List.nil_prefix
  · show d <+: (l ++ t).drop i
    rw [List.drop_append_of_le_length hle]
    exact hi.trans (List.prefix_append _ _)

/-- An occurrence that ends in a part of a list is one in the part. -/
theorem occursAt_prefix {l l' : List α} (h : l <+: l') {i : ℕ} (hlen : i + d.length ≤ l.length)
    (hi : OccursAt d l' i) : OccursAt d l i := by
  obtain ⟨t, rfl⟩ := h
  have hp : d <+: (l ++ t).drop i := hi
  rw [List.drop_append_of_le_length (by omega)] at hp
  refine List.prefix_of_prefix_length_le hp (List.prefix_append _ _) ?_
  rw [List.length_drop]
  omega

theorem OccursAt.add_length_le {l : List α} (hd : d ≠ []) {i : ℕ} (h : OccursAt d l i) :
    i + d.length ≤ l.length := by
  have hlt := h.lt_length hd
  have hle := List.IsPrefix.length_le h
  rw [List.length_drop] at hle
  omega

/-- Whatever follows, the delimiter of a frame is the first one. -/
theorem Framed.firstAt (h : Framed d text) (rest : List α) :
    FirstAt d (text ++ (d ++ rest)) text.length := by
  have hprefix : text ++ d <+: text ++ (d ++ rest) := ⟨rest, List.append_assoc _ _ _⟩
  refine ⟨occursAt_extend hprefix h.1, fun j hj hocc => h.2 j hj ?_⟩
  refine occursAt_prefix hprefix ?_ hocc
  rw [List.length_append]
  omega

/-- **The next frame.** Of a stream that begins with a frame, any part has the first delimiter behind
the frame if it is long enough, and none if it is not. -/
theorem next_frame (hd : d ≠ []) (h : Framed d text) (hc : content <+: text ++ (d ++ rest)) :
    (text.length + d.length ≤ content.length ∧ FirstAt d content text.length) ∨
      (content.length < text.length + d.length ∧ ¬ Occurs d content) := by
  have hfirst := h.firstAt rest
  rcases Nat.lt_or_ge content.length (text.length + d.length) with hlt | hle
  · refine Or.inr ⟨hlt, ?_⟩
    rintro ⟨i, hi⟩
    have hend := OccursAt.add_length_le hd hi
    exact hfirst.2 i (by omega) (occursAt_extend hc hi)
  · refine Or.inl ⟨hle, occursAt_prefix hc hle hfirst.1, fun j hj hocc => ?_⟩
    exact hfirst.2 j hj (occursAt_extend hc hocc)

/-- What is behind the frame is a part of what follows it. -/
theorem content_eq (hc : content <+: text ++ (d ++ rest))
    (hle : text.length + d.length ≤ content.length) :
    content.take text.length = text ∧
      content = text ++ (d ++ content.drop (text.length + d.length)) := by
  obtain ⟨t, ht⟩ := hc
  have hall : text ++ d <+: content ++ t := by
    rw [ht, ← List.append_assoc]
    exact List.prefix_append _ _
  have hlen : (text ++ d).length ≤ content.length := by rwa [List.length_append]
  obtain ⟨rest', rfl⟩ := List.prefix_of_prefix_length_le hall (List.prefix_append _ _) hlen
  constructor
  · rw [List.append_assoc, List.take_left]
  · rw [← List.length_append, List.drop_left, List.append_assoc]

/-! ### Lines -/

variable {a b : α}

/-- The doubled end of a line is not found before the end of a line. -/
theorem not_occursAt_double (hab : a ≠ b) {line : List α} (hline : ¬ Occurs [a, b] line) (rest : List α)
    {i : ℕ} (hi : i < line.length) : ¬ OccursAt [a, b, a, b] (line ++ a :: b :: rest) i := by
  intro hocc
  have hpair : OccursAt [a, b] (line ++ a :: b :: rest) i :=
    List.IsPrefix.trans ⟨[a, b], rfl⟩ hocc
  exact hline ⟨i, (occursAt_append_pair hab hi).mp hpair⟩

/-- **A line and a block of lines** are a frame, for the doubled end of a line. -/
theorem exists_framed_block (hab : a ≠ b) : ∀ {lines : List (List α)} {line : List α},
    ¬ Occurs [a, b] line → (∀ l ∈ lines, l ≠ [] ∧ ¬ Occurs [a, b] l) →
      ∃ text, line ++ a :: b :: block a b lines [] = text ++ [a, b, a, b] ∧
        Framed [a, b, a, b] text ∧ line.length ≤ text.length
  | [], line, hline, _ => by
    refine ⟨line, rfl, ⟨?_, fun j hj => not_occursAt_double hab hline [a, b] hj⟩, le_rfl⟩
    show [a, b, a, b] <+: _
    rw [List.drop_left]
  | l :: lines, line, hline, h => by
    obtain ⟨hne, hl⟩ := h l List.mem_cons_self
    obtain ⟨text, heq, hframed, hlen⟩ :=
      exists_framed_block hab hl fun l' hl' => h l' (List.mem_cons_of_mem l hl')
    have hpos : 0 < l.length := List.length_pos_of_ne_nil hne
    have hshape : line ++ a :: b :: block a b (l :: lines) [] =
        (line ++ a :: b :: text) ++ [a, b, a, b] := by
      rw [block, heq]
      simp only [List.append_assoc, List.cons_append]
    have hdrop : ∀ k, (line ++ a :: b :: (text ++ [a, b, a, b])).drop (line.length + k) =
        (a :: b :: (text ++ [a, b, a, b])).drop k := fun k => by
      rw [← List.drop_drop, List.drop_left]
    refine ⟨line ++ a :: b :: text, hshape, ⟨?_, fun j hj hocc => ?_⟩, ?_⟩
    · show [a, b, a, b] <+: _
      rw [List.drop_left]
    · rw [List.append_assoc] at hocc
      rw [List.length_append, List.length_cons, List.length_cons] at hj
      rcases Nat.lt_or_ge j line.length with hlt | hge
      · exact not_occursAt_double hab hline (text ++ [a, b, a, b]) hlt hocc
      · obtain ⟨k, rfl⟩ := Nat.exists_eq_add_of_le hge
        have hp : [a, b, a, b] <+: (a :: b :: (text ++ [a, b, a, b])).drop k := by
          rw [← hdrop]
          exact hocc
        rcases k with _ | _ | k
        · -- the next line would begin with the end of a line
          have hpair : [a, b] <+: text ++ [a, b, a, b] := by
            obtain ⟨t, ht⟩ := hp
            exact ⟨t, (List.cons.inj (List.cons.inj ht).2).2⟩
          rw [← heq] at hpair
          exact hl ⟨0, (occursAt_append_pair (i := 0) hab hpos).mp hpair⟩
        · obtain ⟨t, ht⟩ := hp
          exact hab (List.cons.inj ht).1
        · exact hframed.2 k (by omega) hp
    · rw [List.length_append]
      omega

end Chaining.Base.Framing
