import Chaining.Base.Runs
import Chaining.Net.Listen
import Mathlib.Data.List.Basic

/-! # Accepting conserves descriptors

`Inv S` says that the listener owns the descriptors `S` and no others, that whatever was returned to it
was passed on or closed once, and that it has closed nothing that was not its own. A descriptor it
keeps, the socket or the idle one, was not returned by an `accept`; so closing it settles no account
twice. Each system call, together with what is done at once with the descriptor it gives out, changes
`S` in a known way, and the calls of `accept` and the destructor are put together from them:
`descriptors_conserved`. -/

namespace Chaining.Net.Accept

open Chaining.Base.Runs Chaining.Outcome Chaining.Net.Listen

/-! ### What is owed -/

/-- How often a descriptor was passed on or closed. -/
def handled (d : ℤ) (serial : ℕ) (log : List Event) : ℕ :=
  log.countP fun e => e = .passed d serial ∨ e = .closed d .listener serial

/-- The idle descriptor, if there is one. -/
def idles (idlefd : ℤ) : List ℤ := if idlefd = -1 then [] else [idlefd]

/-- What the listener is to own: its socket and its idle descriptor, and the socket alone once it is
destroyed. -/
def holdings (s : State) : List ℤ :=
  match s.phase with
  | .before => []
  | .alive => s.handler :: idles s.idlefd
  | .destroyed => [s.handler]

/-- **Descriptors are conserved.** Whatever `accept4` or `accept` has returned was passed to the
callback once or closed once; the listener owns exactly its holdings; and it has closed only
descriptors of its own, and `-1`. -/
structure Conserved (s : State) : Prop where
  handled : ∀ d n, .returned d n ∈ s.log → handled d n s.log = 1
  owns : ∀ d, (∃ n, s.table d = some ⟨.listener, n⟩) ↔ d ∈ holdings s
  closed : ∀ d owner n, .closed d owner n ∈ s.log → owner = .listener
  badClose : ∀ d, .badClose d ∈ s.log → d = -1

/-- **What an operation owes.** -/
def Conserves (s : State) (op : Op) : Prop :=
  ∃ s', s.exec op = .ok (s', ()) ∧ Conserved s'

/-! ### The invariant -/

/-- The serial in an event. -/
def serialOf : Event → Option ℕ
  | .returned _ n | .passed _ n | .closed _ _ n => some n
  | .badClose _ => none

/-- **The invariant**, when the listener owns the descriptors `S`. -/
structure Inv (S : List ℤ) (s : State) : Prop where
  owns : ∀ d, (∃ n, s.table d = some ⟨.listener, n⟩) ↔ d ∈ S
  bounds : ∀ d fd, s.table d = some fd → 0 ≤ d ∧ fd.serial < s.nextSerial
  below : ∀ e ∈ s.log, ∀ n ∈ serialOf e, n < s.nextSerial
  kept : ∀ d n, s.table d = some ⟨.listener, n⟩ → ∀ d', .returned d' n ∉ s.log
  handled : ∀ d n, .returned d n ∈ s.log → Accept.handled d n s.log = 1
  closed : ∀ d owner n, .closed d owner n ∈ s.log → owner = .listener
  badClose : ∀ d, .badClose d ∈ s.log → d = -1

variable {S S' : List ℤ} {s s' : State} {d : ℤ}

/-- The invariant is about the kernel's table and the history. -/
theorem Inv.congr (h : Inv S s) (ht : s'.table = s.table) (hn : s'.nextSerial = s.nextSerial)
    (hl : s'.log = s.log) : Inv S s' := by
  constructor
  · rw [ht]; exact h.owns
  · rw [ht, hn]; exact h.bounds
  · rw [hl, hn]; exact h.below
  · rw [ht, hl]; exact h.kept
  · rw [hl]; exact h.handled
  · rw [hl]; exact h.closed
  · rw [hl]; exact h.badClose

theorem inv_init : Inv [] init := by
  constructor <;> simp [init]

theorem Inv.conserved (h : Inv (holdings s) s) : Conserved s :=
  ⟨h.handled, h.owns, h.closed, h.badClose⟩

theorem Inv.of_mem (h : Inv S s) (hd : d ∈ S) : ∃ n, s.table d = some ⟨.listener, n⟩ :=
  (h.owns d).mpr hd

/-- A descriptor that is given out is not one of the listener's. -/
theorem Inv.notMem_of_fresh (h : Inv S s) (hd : Fresh s (.fd d)) : d ∉ S := by
  intro hmem
  obtain ⟨n, hn⟩ := h.of_mem hmem
  rw [hd.2] at hn
  cases hn

/-- A serial that is not in use yet is in no event and with no descriptor. -/
theorem Inv.serial_next (h : Inv S s) :
    (∀ e ∈ s.log, serialOf e ≠ some s.nextSerial) ∧
      ∀ x, s.table x ≠ some ⟨.listener, s.nextSerial⟩ :=
  ⟨fun e he heq => Nat.lt_irrefl _ (h.below e he _ heq),
    fun x hfd => Nat.lt_irrefl _ (h.bounds x _ hfd).2⟩

theorem handled_cons_of_ne {e : Event} {n : ℕ} {log : List Event}
    (he : e ≠ .passed d n ∧ e ≠ .closed d .listener n) : handled d n (e :: log) = handled d n log := by
  unfold handled
  rw [List.countP_cons_of_neg]
  simpa using he

/-- What is in no event has not been handled. -/
theorem handled_eq_zero {n : ℕ} {log : List Event} (hnot : ∀ e ∈ log, serialOf e ≠ some n) (d : ℤ) :
    handled d n log = 0 := by
  refine List.countP_eq_zero.mpr fun e he hhandled => ?_
  rcases of_decide_eq_true hhandled with rfl | rfl
  · exact hnot _ he rfl
  · exact hnot _ he rfl

/-! ### System calls -/

/-- An entry of a table that was changed at one descriptor. -/
theorem entry_cases {table : ℤ → Option Fd} {v : Option Fd} {x : ℤ} {fd : Fd}
    (h : Function.update table d v x = some fd) : x = d ∧ v = some fd ∨ table x = some fd := by
  by_cases hx : x = d
  · rw [hx, Function.update_self] at h
    exact Or.inl ⟨hx, h⟩
  · rw [Function.update_of_ne hx] at h
    exact Or.inr h

/-- The listener's descriptors, when one was changed. -/
theorem owned_update_iff {table : ℤ → Option Fd} {v : Option Fd} (x : ℤ) :
    (∃ n, Function.update table d v x = some ⟨.listener, n⟩) ↔
      (x ≠ d ∧ ∃ n, table x = some ⟨.listener, n⟩) ∨ (x = d ∧ ∃ n, v = some ⟨.listener, n⟩) := by
  by_cases hx : x = d
  · simp [hx]
  · simp [hx]

/-- A descriptor given out, to keep: by `open` or `socket`, or to the program. -/
theorem inv_give (h : Inv S s) (hd : Fresh s (.fd d)) (owner : Owner)
    (hS : ∀ x, x ∈ S' ↔ x ∈ S ∨ x = d ∧ owner = .listener) : Inv S' (s.give owner d) := by
  have hnot := h.notMem_of_fresh hd
  constructor
  case owns =>
    intro x
    show (∃ n, Function.update s.table d _ x = some ⟨.listener, n⟩) ↔ _
    rw [owned_update_iff, h.owns, hS]
    constructor
    · rintro (⟨-, hx⟩ | ⟨hx, n, hn⟩)
      · exact Or.inl hx
      · cases hn
        exact Or.inr ⟨hx, rfl⟩
    · rintro (hx | ⟨hx, rfl⟩)
      · exact Or.inl ⟨fun heq => hnot (heq ▸ hx), hx⟩
      · exact Or.inr ⟨hx, _, rfl⟩
  case bounds =>
    intro x fd hfd
    show 0 ≤ x ∧ fd.serial < s.nextSerial + 1
    rcases entry_cases hfd with ⟨rfl, hv⟩ | hfd
    · cases hv
      exact ⟨hd.1, Nat.lt_succ_self _⟩
    · obtain ⟨h0, hlt⟩ := h.bounds x fd hfd
      exact ⟨h0, Nat.lt_succ_of_lt hlt⟩
  case below => exact fun e he n hn => Nat.lt_succ_of_lt (h.below e he n hn)
  case kept =>
    intro x n hfd
    rcases entry_cases hfd with ⟨rfl, hv⟩ | hfd
    · cases hv
      exact fun y hmem => h.serial_next.1 _ hmem rfl
    · exact h.kept x n hfd
  case handled => exact h.handled
  case closed => exact h.closed
  case badClose => exact h.badClose

/-- A descriptor returned by an `accept` and handled at once: its account is settled. -/
theorem inv_account (h : Inv S s) {n : ℕ} (hn : n < s.nextSerial)
    (hnot : ∀ e ∈ s.log, serialOf e ≠ some n) (hfree : ∀ x, s.table x ≠ some ⟨.listener, n⟩)
    {e : Event} (he : e = .passed d n ∨ e = .closed d .listener n) :
    Inv S { s with log := e :: .returned d n :: s.log } := by
  have hser : serialOf e = some n := by rcases he with rfl | rfl <;> rfl
  have hret : ∀ x m, .returned x m ∈ e :: .returned d n :: s.log →
      x = d ∧ m = n ∨ .returned x m ∈ s.log := by
    intro x m hmem
    rcases List.mem_cons.mp hmem with heq | hmem
    · rcases he with rfl | rfl <;> cases heq
    · rcases List.mem_cons.mp hmem with heq | hmem
      · cases heq
        exact Or.inl ⟨rfl, rfl⟩
      · exact Or.inr hmem
  constructor
  case owns => exact h.owns
  case bounds => exact h.bounds
  case below =>
    intro e' he' m hm
    rcases List.mem_cons.mp he' with rfl | he'
    · rw [hser] at hm
      cases hm
      exact hn
    · rcases List.mem_cons.mp he' with rfl | he'
      · cases hm
        exact hn
      · exact h.below e' he' m hm
  case kept =>
    intro x m hfd y hmem
    rcases hret y m hmem with ⟨-, rfl⟩ | hmem
    · exact hfree x hfd
    · exact h.kept x m hfd y hmem
  case handled =>
    intro x m hmem
    rcases hret x m hmem with ⟨rfl, rfl⟩ | hmem
    · have hzero : Accept.handled x m (.returned x m :: s.log) = 0 :=
        (handled_cons_of_ne (by simp)).trans (handled_eq_zero hnot x)
      unfold Accept.handled at hzero ⊢
      rw [List.countP_cons_of_pos, hzero]
      exact decide_eq_true he
    · have hne : m ≠ n := fun heq => hnot _ hmem (congrArg some heq)
      rw [handled_cons_of_ne, handled_cons_of_ne (by simp)]
      · exact h.handled x m hmem
      · rcases he with rfl | rfl
        · simp [Ne.symm hne]
        · simp [Ne.symm hne]
  case closed =>
    intro x owner m hmem
    rcases List.mem_cons.mp hmem with heq | hmem
    · rcases he with rfl | rfl <;> cases heq
      rfl
    · rcases List.mem_cons.mp hmem with heq | hmem
      · cases heq
      · exact h.closed x owner m hmem
  case badClose =>
    intro x hmem
    rcases List.mem_cons.mp hmem with heq | hmem
    · rcases he with rfl | rfl <;> cases heq
    · rcases List.mem_cons.mp hmem with heq | hmem
      · cases heq
      · exact h.badClose x hmem

/-- An event that settles no account, as long as it is one the listener answers for. -/
theorem inv_log (h : Inv S s) {e : Event} (hret : ∀ x n, e ≠ .returned x n)
    (hbelow : ∀ n ∈ serialOf e, n < s.nextSerial)
    (hnew : ∀ x n, .returned x n ∈ s.log → e ≠ .passed x n ∧ e ≠ .closed x .listener n)
    (hclosed : ∀ x owner n, e = .closed x owner n → owner = .listener)
    (hbad : ∀ x, e = .badClose x → x = -1) : Inv S { s with log := e :: s.log } := by
  have hold : ∀ x n, .returned x n ∈ e :: s.log → .returned x n ∈ s.log := fun x n hmem =>
    (List.mem_cons.mp hmem).resolve_left fun heq => hret x n heq.symm
  constructor
  case owns => exact h.owns
  case bounds => exact h.bounds
  case below =>
    intro e' he' n hn
    rcases List.mem_cons.mp he' with rfl | he'
    · exact hbelow n hn
    · exact h.below e' he' n hn
  case kept => exact fun x n hfd y hmem => h.kept x n hfd y (hold y n hmem)
  case handled =>
    intro x n hmem
    rw [handled_cons_of_ne (hnew x n (hold x n hmem))]
    exact h.handled x n (hold x n hmem)
  case closed =>
    intro x owner n hmem
    rcases List.mem_cons.mp hmem with heq | hmem
    · exact hclosed x owner n heq.symm
    · exact h.closed x owner n hmem
  case badClose =>
    intro x hmem
    rcases List.mem_cons.mp hmem with heq | hmem
    · exact hbad x heq.symm
    · exact h.badClose x hmem

/-- A descriptor leaves the table. -/
theorem inv_release (h : Inv S s) (d : ℤ) (hS : ∀ x, x ∈ S' ↔ x ∈ S ∧ x ≠ d) :
    Inv S' { s with table := Function.update s.table d none } := by
  have hold : ∀ x fd, Function.update s.table d none x = some fd → s.table x = some fd :=
    fun x fd hfd => (entry_cases hfd).resolve_left fun hv => by cases hv.2
  constructor
  case owns =>
    intro x
    show (∃ n, Function.update s.table d none x = some ⟨.listener, n⟩) ↔ _
    rw [owned_update_iff, h.owns, hS]
    simp [and_comm]
  case bounds => exact fun x fd hfd => h.bounds x fd (hold x fd hfd)
  case below => exact h.below
  case kept => exact fun x n hfd => h.kept x n (hold x _ hfd)
  case handled => exact h.handled
  case closed => exact h.closed
  case badClose => exact h.badClose

/-- The listener closes a descriptor that it keeps. -/
theorem inv_sysClose (h : Inv S s) (hd : d ∈ S) (hS : ∀ x, x ∈ S' ↔ x ∈ S ∧ x ≠ d) :
    Inv S' (s.sysClose d) := by
  obtain ⟨n, hn⟩ := h.of_mem hd
  have hclose : s.sysClose d = { s with
      table := Function.update s.table d none, log := .closed d .listener n :: s.log } := by
    unfold State.sysClose
    rw [hn]
  have hlog : Inv S { s with log := .closed d .listener n :: s.log } := by
    refine inv_log h (fun x m heq => by cases heq) ?_ ?_ ?_ fun x heq => by cases heq
    · intro m hm
      cases hm
      exact (h.bounds d _ hn).2
    · -- What the listener keeps was not returned.
      intro x m hmem
      refine ⟨(fun heq => by cases heq), fun heq => ?_⟩
      cases heq
      exact h.kept d n hn d hmem
    · intro x owner m heq
      cases heq
      rfl
  rw [hclose]
  exact inv_release hlog d hS

/-- `close(-1)` closes nothing. -/
theorem inv_sysClose_none (h : Inv S s) : Inv S (s.sysClose (-1)) := by
  have hnone : s.table (-1) = none := by
    cases hfd : s.table (-1) with
    | none => rfl
    | some fd => exact absurd (h.bounds _ fd hfd).1 (by decide)
  have hclose : s.sysClose (-1) = { s with log := .badClose (-1) :: s.log } := by
    unfold State.sysClose
    rw [hnone]
  rw [hclose]
  refine inv_log h (fun x n heq => by cases heq) (fun n hn => by cases hn) ?_ ?_ ?_
  · exact fun x n _ => ⟨(fun heq => by cases heq), fun heq => by cases heq⟩
  · exact fun x owner n heq => by cases heq
  · intro x heq
    cases heq
    rfl

/-! ### What `accept` and the destructor are made of -/

/-- A descriptor returned and passed to the callback: it is the program's from the first. -/
theorem inv_pass (h : Inv S s) (hd : Fresh s (.fd d)) :
    Inv S ((s.sysAccept (.fd d)).1.pass d) := by
  have hpass : (s.sysAccept (.fd d)).1.pass d = { s.give .program d with
      log := .passed d s.nextSerial :: .returned d s.nextSerial :: s.log } := by
    simp [State.pass, State.sysAccept, State.give]
  have hgive : Inv S (s.give .program d) := inv_give h hd .program (by simp)
  obtain ⟨hnot, hfree⟩ := h.serial_next
  rw [hpass]
  refine inv_account hgive (Nat.lt_succ_self _) hnot (fun x hfd => ?_) (Or.inl rfl)
  rcases entry_cases hfd with ⟨-, hv⟩ | hfd
  · cases hv
  · exact hfree x hfd

/-- A descriptor returned and closed: it is gone again. -/
theorem inv_drop (h : Inv S s) (hd : Fresh s (.fd d)) :
    Inv S ((s.sysAccept (.fd d)).1.sysClose d) := by
  have hdrop : (s.sysAccept (.fd d)).1.sysClose d = { s.give .program d with
      table := Function.update (s.give .program d).table d none
      log := .closed d .listener s.nextSerial :: .returned d s.nextSerial :: s.log } := by
    simp [State.sysClose, State.sysAccept, State.give]
  have hgive : Inv S (s.give .program d) := inv_give h hd .program (by simp)
  have hmem : ∀ x, x ∈ S ↔ x ∈ S ∧ x ≠ d := fun x =>
    ⟨fun hx => ⟨hx, fun heq => h.notMem_of_fresh hd (heq ▸ hx)⟩, fun hx => hx.1⟩
  have hgone := inv_release hgive d hmem
  obtain ⟨hnot, hfree⟩ := h.serial_next
  rw [hdrop]
  refine inv_account hgone (Nat.lt_succ_self _) hnot (fun x hfd => ?_) (Or.inr rfl)
  rcases entry_cases hfd with ⟨-, hv⟩ | hfd
  · cases hv
  rcases entry_cases hfd with ⟨-, hv⟩ | hfd
  · cases hv
  · exact hfree x hfd

theorem inv_closeIdle {a : ℤ} (h : Inv (a :: idles s.idlefd) s) (hne : a ≠ s.idlefd) :
    Inv [a] s.closeIdle := by
  unfold State.closeIdle idles at *
  split_ifs at h with hidle
  · rw [hidle]
    exact inv_sysClose_none h
  · refine inv_sysClose h (by simp) fun x => ?_
    constructor
    · intro hx
      rw [List.mem_singleton.mp hx]
      exact ⟨List.mem_cons_self, hne⟩
    · rintro ⟨hx, hxne⟩
      simpa [hxne] using hx

/-- The connection that is accepted on the idle descriptor is closed. -/
theorem inv_refuse (h : Inv S s) {o : Outcome} (ho : Fresh s o) :
    Inv S (s.acceptIdle o).closeIdle := by
  cases o with
  | fd d =>
    have hclose : (s.acceptIdle (.fd d)).closeIdle =
        { (s.sysAccept (.fd d)).1.sysClose d with idlefd := d } := by
      simp [State.closeIdle, State.acceptIdle, State.sysAccept, State.sysClose, State.give]
    rw [hclose]
    exact (inv_drop h ho).congr rfl rfl rfl
  | failed errno =>
    have hidle : Inv S (s.acceptIdle (.failed errno)) := h.congr rfl rfl rfl
    exact inv_sysClose_none hidle

/-- A new idle descriptor, if there is one, is not the socket. -/
theorem inv_openIdle {a : ℤ} (h : Inv [a] s) (ha : 0 ≤ a) {o : Outcome} (ho : Fresh s o) :
    Inv (a :: idles (s.openIdle o).idlefd) (s.openIdle o) ∧ a ≠ (s.openIdle o).idlefd := by
  cases o with
  | fd d =>
    have hne : a ≠ d := fun heq => h.notMem_of_fresh ho (heq ▸ List.mem_cons_self)
    have hd : d ≠ -1 := fun heq => by
      have h0 := ho.1
      omega
    have hgive : Inv (a :: idles d) (s.give .listener d) := by
      refine inv_give h ho .listener fun x => ?_
      unfold idles
      rw [if_neg hd]
      simp
    exact ⟨hgive.congr rfl rfl rfl, hne⟩
  | failed errno =>
    refine ⟨h.congr rfl rfl rfl, fun heq => ?_⟩
    have hone : a = -1 := heq
    omega

theorem inv_deed (h : Inv S s) {e : Deed} (he : DeedAdmits s e) : Inv S (s.deed e) := by
  cases e with
  | opens d => exact inv_give h he .program (by simp)
  | closes d =>
    obtain ⟨n, hn⟩ := he
    have hnot : d ∉ S := fun hmem => by
      obtain ⟨m, hm⟩ := h.of_mem hmem
      rw [hn] at hm
      cases hm
    refine inv_release h d fun x => ?_
    exact ⟨fun hx => ⟨hx, fun heq => hnot (heq ▸ hx)⟩, fun hx => hx.1⟩
  | setNewConnectionCallback set => exact h.congr rfl rfl rfl

theorem inv_deeds : ∀ {s : State} {es : List Deed}, Inv S s → DeedsAdmit s es → Inv S (s.deeds es)
  | _, [], h, _ => h
  | s, e :: es, h, he => by
    show Inv S ((s.deed e).deeds es)
    exact inv_deeds (inv_deed h he.1) he.2

/-! ### Operations -/

/-- What holds between two operations: the listener owns its holdings, and its two descriptors are
different ones. -/
structure Settled (s : State) : Prop where
  inv : Inv (holdings s) s
  socket : s.phase = .alive → 0 ≤ s.handler ∧ s.handler ≠ s.idlefd

theorem holdings_congr (hp : s'.phase = s.phase) (hh : s'.handler = s.handler)
    (hi : s'.idlefd = s.idlefd) : holdings s' = holdings s := by
  unfold holdings
  rw [hp, hh, hi]

/-- An operation that leaves the listener's members as they are. -/
theorem Settled.frame (h : Settled s) (hinv : Inv (holdings s) s') (hp : s'.phase = s.phase)
    (hh : s'.handler = s.handler) (hi : s'.idlefd = s.idlefd) : Settled s' := by
  refine ⟨(holdings_congr hp hh hi).symm ▸ hinv, fun hphase => ?_⟩
  rw [hh, hi]
  exact h.socket (hp ▸ hphase)

theorem holdings_alive (hp : s.phase = .alive) : holdings s = s.handler :: idles s.idlefd := by
  unfold holdings
  rw [hp]

/-- A living listener's members, after a call that may have changed the idle descriptor. -/
theorem settled_alive (hp : s.phase = .alive) (h0 : 0 ≤ s.handler)
    (h : Inv (s.handler :: idles s.idlefd) s ∧ s.handler ≠ s.idlefd) : Settled s :=
  ⟨(holdings_alive hp).symm ▸ h.1, fun _ => ⟨h0, h.2⟩⟩

/-- **The EMFILE path**: the idle descriptor is closed, the connection accepted in its place is
closed, and the idle descriptor is opened again, each as far as it succeeds. -/
theorem settled_emfile (h : Settled s) (hp : s.phase = .alive) {o : Outcomes}
    (hadm : Admits s (.accept o)) (ho : o.accept4 = .failed EMFILE) : Settled (s.accept o) := by
  obtain ⟨-, -, hrest⟩ := hadm
  obtain ⟨hb, ha, hb', hop⟩ := hrest ho
  obtain ⟨h0, hne⟩ := h.socket hp
  have hinv : Inv (s.handler :: idles s.idlefd) s := holdings_alive hp ▸ h.inv
  have h1 := inv_deeds (inv_closeIdle hinv hne) hb
  have h2 := inv_deeds (inv_refuse h1 ha) hb'
  have h3 := inv_openIdle h2 h0 hop
  have haccept : s.accept o =
      (((s.closeIdle.deeds o.beforeAccept).acceptIdle o.accept).closeIdle.deeds o.beforeOpen).openIdle
        o.opened := by
    unfold State.accept
    rw [ho]
    simp [State.sysAccept]
  have hphase : (s.accept o).phase = .alive := by
    rw [haccept]
    simp [State.closeIdle, hp]
  have hhandler : (s.accept o).handler = s.handler := by
    rw [haccept]
    simp [State.closeIdle]
  refine settled_alive hphase (hhandler ▸ h0) ?_
  rw [hhandler, haccept]
  exact h3

theorem settled_accept (h : Settled s) {o : Outcomes} (hadm : Admits s (.accept o)) :
    Settled (s.accept o) := by
  have hp : s.phase = .alive := hadm.1
  have hfresh : Fresh s o.accept4 := hadm.2.1
  cases ho : o.accept4 with
  | fd d =>
    rw [ho] at hfresh
    have hd : d ≠ -1 := fun heq => by
      have h0 := hfresh.1
      omega
    have haccept : s.accept o = if s.newConnectioncb then (s.sysAccept (.fd d)).1.pass d
        else (s.sysAccept (.fd d)).1.sysClose d := by
      unfold State.accept
      rw [ho]
      exact if_neg hd
    rw [haccept]
    split_ifs
    · refine h.frame (inv_pass h.inv hfresh) ?_ ?_ ?_ <;> simp [State.sysAccept, State.give]
    · refine h.frame (inv_drop h.inv hfresh) ?_ ?_ ?_ <;> simp [State.sysAccept, State.give]
  | failed errno =>
    by_cases herrno : errno = EMFILE
    · exact settled_emfile h hp hadm (herrno ▸ ho)
    · have haccept : s.accept o = s := by
        unfold State.accept
        rw [ho]
        simp [State.sysAccept, herrno]
      exact haccept.symm ▸ h

theorem settled_construct (h : Settled s) {socket : ℤ} {opened : Outcome}
    (hadm : Admits s (.construct socket opened)) : Settled (s.construct socket opened) := by
  obtain ⟨hp, hsocket, hopened⟩ := hadm
  have hnone : holdings s = [] := by
    unfold holdings
    rw [hp]
  have hgive : Inv [socket] (s.give .listener socket) :=
    inv_give h.inv hsocket .listener fun x => by simp [hnone]
  obtain ⟨hinv, hne⟩ := inv_openIdle hgive hsocket.1 hopened
  have hidle : (s.construct socket opened).idlefd =
      ((s.give .listener socket).openIdle opened).idlefd := by
    cases opened <;> rfl
  refine settled_alive rfl hsocket.1 ⟨?_, hidle ▸ hne⟩
  rw [hidle]
  exact hinv.congr (by cases opened <;> rfl) (by cases opened <;> rfl) (by cases opened <;> rfl)

theorem settled_destroy (h : Settled s) (hp : s.phase = .alive) : Settled s.destroy := by
  have hinv : Inv (s.handler :: idles s.idlefd) s := holdings_alive hp ▸ h.inv
  have hclose : Inv [s.handler] s.closeIdle := inv_closeIdle hinv (h.socket hp).2
  refine ⟨?_, fun hphase => by cases hphase⟩
  have hholdings : holdings s.destroy = [s.handler] := by
    simp [holdings, State.destroy, State.closeIdle]
  rw [hholdings]
  exact hclose.congr rfl rfl rfl

theorem settled_deed (h : Settled s) {e : Deed} (he : DeedAdmits s e) : Settled (s.deed e) := by
  obtain ⟨hp, hh, hi⟩ := s.deed_frame e
  exact h.frame (inv_deed h.inv he) hp hh hi

/-- The step lemma. -/
theorem exec_settled (h : Settled s) {op : Op} (hadm : Admits s op) :
    ∃ s', s.exec op = .ok (s', ()) ∧ Settled s' := by
  cases op with
  | deed e => exact ⟨_, rfl, settled_deed h hadm⟩
  | construct socket opened => exact ⟨_, rfl, settled_construct h hadm⟩
  | accept o => exact ⟨_, rfl, settled_accept h hadm⟩
  | destroy => exact ⟨_, rfl, settled_destroy h hadm⟩

theorem settled_init : Settled init := ⟨inv_init, fun hp => by cases hp⟩

/-- **Accepting conserves descriptors**, whatever the outcomes of the system calls in a run. -/
theorem descriptors_conserved (ops : List Op) (hadm : Along State.exec Admits init ops) :
    Along State.exec Conserves init ops := by
  refine Along.of_invariant (I := Settled) ?_ ?_ settled_init hadm
  · intro s op h hop
    obtain ⟨s', he, hs⟩ := exec_settled h hop
    exact ⟨s', he, hs.inv.conserved⟩
  · intro s op s' _ h hop he
    obtain ⟨t, ht, hs⟩ := exec_settled h hop
    cases he.symm.trans ht
    exact hs

/-- Another thread takes the number of the idle descriptor before it is opened again; at the next
`accept` there is none to close. -/
def takenRun : List Op :=
  [.construct 3 (.fd 4),
    .deed (.setNewConnectionCallback true),
    .accept ⟨.fd 5, [], .failed 0, [], .failed 0⟩,
    .accept ⟨.failed EMFILE, [.closes 5], .fd 4, [.opens 4], .failed EMFILE⟩,
    .accept ⟨.failed EMFILE, [], .failed EMFILE, [.closes 4], .fd 4⟩,
    .destroy]

theorem descriptors_conserved_taken : Along State.exec Conserves init takenRun := by
  refine descriptors_conserved takenRun ?_
  refine Along.cons ⟨rfl, ⟨by decide, rfl⟩, ⟨by decide, rfl⟩⟩ rfl ?_
  refine Along.cons trivial rfl ?_
  refine Along.cons ⟨rfl, ⟨by decide, rfl⟩, fun heq => by cases heq⟩ rfl ?_
  refine Along.cons ⟨rfl, trivial, fun _ => ?_⟩ rfl ?_
  · exact ⟨⟨⟨_, rfl⟩, trivial⟩, ⟨by decide, rfl⟩, ⟨⟨by decide, rfl⟩, trivial⟩, trivial⟩
  refine Along.cons ⟨rfl, trivial, fun _ => ?_⟩ rfl ?_
  · exact ⟨trivial, trivial, ⟨⟨_, rfl⟩, trivial⟩, ⟨by decide, rfl⟩⟩
  exact Along.cons rfl rfl trivial

end Chaining.Net.Accept
