import Chaining.Base.Search

/-! # Blocks of lines

A line ends with a delimiter of two different symbols, and a block of lines with an empty line, after
which anything may follow (`block`). `readLine` cuts a text at its first delimiter, `readBlock` reads
lines up to the first empty one.

* `readBlock_block`: a block is read back as its lines and what follows, if the lines are not empty
  and have no delimiter in them.
* `readBlock_iff`: a reader that finds the number of lines and the rest that were written has been
  given such lines, and only then. -/

namespace Chaining.Base.Lines

open Chaining.Base.Search

variable {α : Type*} (a b : α)

/-- The lines, each with its delimiter, an empty line, and what follows. -/
def block : List (List α) → List α → List α
  | [], body => a :: b :: body
  | line :: lines, body => line ++ a :: b :: block lines body

theorem length_block (lines : List (List α)) (body : List α) :
    lines.length + body.length + 2 ≤ (block a b lines body).length := by
  induction lines with
  | nil => simp [block]
  | cons line lines ih =>
    rw [block, List.length_append, List.length_cons, List.length_cons, List.length_cons]
    omega

variable [DecidableEq α]

/-- The first line and what follows its delimiter. -/
def readLine (l : List α) : Option (List α × List α) :=
  if search [a, b] l < l.length then some (l.take (search [a, b] l), l.drop (search [a, b] l + 2))
  else none

/-- At most `n` lines up to the first empty one, and what follows that. -/
def readLines : ℕ → List α → Option (List (List α) × List α)
  | 0, _ => none
  | n + 1, l =>
    match readLine a b l with
    | none => none
    | some ([], rest) => some ([], rest)
    | some (x :: line, rest) =>
      (readLines n rest).map fun (lines, body) => ((x :: line) :: lines, body)

/-- The lines up to the first empty one, and what follows that. -/
def readBlock (l : List α) : Option (List (List α) × List α) := readLines a b l.length l

variable {a b} (hab : a ≠ b)
include hab

theorem readLine_append {line : List α} (h : ¬ Occurs [a, b] line) (rest : List α) :
    readLine a b (line ++ a :: b :: rest) = some (line, rest) := by
  have hs := search_eq_of_firstAt (List.cons_ne_nil a [b]) (firstAt_append_pair hab h rest)
  unfold readLine
  rw [hs, if_pos (by simp), List.take_left]
  simp [List.drop_append]

omit hab in
theorem readLine_eq_some {l line rest : List α} (h : readLine a b l = some (line, rest)) :
    l = line ++ a :: b :: rest ∧ ¬ Occurs [a, b] line := by
  unfold readLine at h
  split_ifs at h with hlt
  cases h
  obtain ⟨h1, h2⟩ := firstAt_search (List.cons_ne_nil a [b]) ((search_lt_iff (by simp) l).mp hlt)
  generalize search [a, b] l = i at h1 h2 hlt
  constructor
  · obtain ⟨t, ht⟩ := h1
    have hdrop : l.drop (i + 2) = t := by
      rw [← List.drop_drop, ← ht]
      rfl
    rw [hdrop]
    calc l = l.take i ++ l.drop i := (List.take_append_drop i l).symm
      _ = l.take i ++ a :: b :: t := by rw [← ht]; rfl
  · rintro ⟨j, hj⟩
    have hji := hj.lt_length (List.cons_ne_nil a [b])
    rw [List.length_take] at hji
    refine h2 j (by omega) ?_
    rw [occursAt_pair] at hj ⊢
    have hj1 := (List.getElem?_eq_some_iff.mp hj.2).1
    rw [List.length_take] at hj1
    rw [List.getElem?_take_of_lt (by omega), List.getElem?_take_of_lt (by omega)] at hj
    exact hj

omit hab in
theorem exists_readLine {l : List α} (h : Occurs [a, b] l) :
    ∃ line rest, readLine a b l = some (line, rest) :=
  ⟨_, _, if_pos ((search_lt_iff (List.cons_ne_nil a [b]) l).mpr h)⟩

theorem readLines_block (body : List α) :
    ∀ {lines : List (List α)} {n : ℕ}, (∀ line ∈ lines, line ≠ [] ∧ ¬ Occurs [a, b] line) →
      lines.length < n → readLines a b n (block a b lines body) = some (lines, body)
  | [], n + 1, _, _ => by
    have hread := readLine_append hab (not_occurs_nil (List.cons_ne_nil a [b])) body
    rw [List.nil_append] at hread
    rw [block, readLines, hread]
  | [] :: _, _ + 1, h, _ => absurd rfl (h [] List.mem_cons_self).1
  | (x :: line) :: lines, n + 1, h, hn => by
    have hread := readLine_append hab (h _ List.mem_cons_self).2 (block a b lines body)
    have ih := readLines_block body (fun l hl => h l (List.mem_cons_of_mem _ hl))
      (Nat.lt_of_succ_lt_succ hn)
    rw [block, readLines, hread]
    dsimp only
    rw [ih]
    rfl

/-- **A block is read back.** -/
theorem readBlock_block {lines : List (List α)} {body : List α}
    (h : ∀ line ∈ lines, line ≠ [] ∧ ¬ Occurs [a, b] line) :
    readBlock a b (block a b lines body) = some (lines, body) := by
  have hlen := length_block a b lines body
  exact readLines_block hab body h (by omega)

/-- A reader finds at least the lines that were written, or the empty line before the end of them; and
more, if a delimiter stands in one. -/
theorem readLines_block_le {body : List α} :
    ∀ {n : ℕ} {written lines : List (List α)} {rest : List α},
      readLines a b n (block a b written body) = some (lines, rest) → rest.length ≤ body.length →
        written.length ≤ lines.length ∧
          (lines.length = written.length → ∀ line ∈ written, ¬ Occurs [a, b] line)
  | 0, _, _, _, h, _ => by cases h
  | _ + 1, [], _, _, _, _ => ⟨Nat.zero_le _, fun _ _ hl => absurd hl List.not_mem_nil⟩
  | n + 1, w :: written, lines, rest, h, hrest => by
    by_cases hocc : Occurs [a, b] w
    · -- the first line that is read is a proper part of the first that was written
      obtain ⟨p, q, hpq⟩ := exists_readLine hocc
      obtain ⟨rfl, hp⟩ := readLine_eq_some hpq
      have hread := readLine_append hab hp (block a b (q :: written) body)
      have hshape : block a b ((p ++ a :: b :: q) :: written) body =
          p ++ a :: b :: block a b (q :: written) body := by
        simp [block]
      rw [hshape, readLines, hread] at h
      match p, hp with
      | [], _ =>
        cases h
        have hlen := length_block a b (q :: written) body
        omega
      | x :: p, _ =>
        dsimp only at h
        rw [Option.map_eq_some_iff] at h
        obtain ⟨⟨lines', rest'⟩, h', heq⟩ := h
        cases heq
        obtain ⟨hle, -⟩ := readLines_block_le h' hrest
        rw [List.length_cons] at hle
        refine ⟨?_, fun hlen => ?_⟩
        · simp only [List.length_cons]
          omega
        · simp only [List.length_cons] at hlen
          omega
    · have hread := readLine_append hab hocc (block a b written body)
      rw [block, readLines, hread] at h
      match w, hocc with
      | [], _ =>
        cases h
        have hlen := length_block a b written body
        omega
      | x :: w, hocc =>
        dsimp only at h
        rw [Option.map_eq_some_iff] at h
        obtain ⟨⟨lines', rest'⟩, h', heq⟩ := h
        cases heq
        obtain ⟨hle, hall⟩ := readLines_block_le h' hrest
        refine ⟨Nat.succ_le_succ hle, fun hlen l hl => ?_⟩
        rcases List.mem_cons.mp hl with rfl | hl
        · exact hocc
        · exact hall (Nat.succ.inj hlen) l hl

/-- **When a block is read back**: the reader finds as many lines as were written, and what follows
them, exactly if the lines have no delimiter in them. -/
theorem readBlock_iff {written : List (List α)} {body : List α} (hne : ∀ line ∈ written, line ≠ []) :
    (∃ lines, readBlock a b (block a b written body) = some (lines, body) ∧
        lines.length = written.length) ↔ ∀ line ∈ written, ¬ Occurs [a, b] line := by
  constructor
  · rintro ⟨lines, h, hlen⟩
    exact (readLines_block_le hab h le_rfl).2 hlen
  · exact fun h => ⟨written, readBlock_block hab fun l hl => ⟨hne l hl, h l hl⟩, rfl⟩

end Chaining.Base.Lines
