import Mathlib.Logic.Function.Iterate

/-!
# How deep a recursion goes

A recursion is given by one of its turns: what is done at an argument, with a function for the calls
that the turn makes. To run it with a bound on its depth is to iterate the turn, with something in
place of the calls at the bottom. If each turn calls for smaller arguments only, what stands at the
bottom is never asked, as long as there are enough turns (`Descends.iterate_eq`), so all such runs
come to one function (`Descends.endsWith`).

Some turns call for smaller arguments only as long as the calls give good results: a loop gets
further only with what takes something away.
-/

namespace Commentary.Recursion

variable {α β : Type} {turn : (α → β) → α → β} {measure : α → Nat} {Good : α → β → Prop}

/-- A turn at `x` calls for `y`: it hangs on what is done at `y`, where all calls give good
results. -/
def Calls (Good : α → β → Prop) (turn : (α → β) → α → β) (x y : α) : Prop :=
  ∃ f g : α → β, (∀ z, Good z (f z)) ∧ (∀ z, Good z (g z)) ∧ (∀ z, z ≠ y → f z = g z) ∧
    turn f x ≠ turn g x

/-- A recursion ends with a function: one more turn does not change the function, and with enough
turns the recursion comes to it, whatever is done in place of further calls. -/
structure EndsWith (turn : (α → β) → α → β) (depth : α → Nat) (f : α → β) : Prop where
  fixed : turn f = f
  breaks_off : ∀ beyond n x, depth x ≤ n → turn^[n] beyond x = f x

/-- Turns call for what is smaller only, and give good results for good results. -/
def Descends (turn : (α → β) → α → β) (measure : α → Nat) (Good : α → β → Prop) : Prop :=
  ∀ f g x, (∀ y, measure y < measure x → f y = g y ∧ Good y (f y)) →
    turn f x = turn g x ∧ Good x (turn f x)

/-- Runs with one more turn each are the iterates of the turn. -/
theorem iterate_eq_of_succ {f : Nat → α → β} (hf : ∀ n, f (n + 1) = turn (f n)) (n : Nat) :
    turn^[n] (f 0) = f n := by
  induction n with
  | zero => rfl
  | succ n ih => rw [Function.iterate_succ_apply', ih, hf]

namespace Descends

variable (h : Descends turn measure Good)

include h

theorem lt_of_calls {x y : α} (hcalls : Calls Good turn x y) : measure y < measure x := by
  obtain ⟨f, g, hf, -, hsame, hne⟩ := hcalls
  by_contra hle
  refine hne (h f g x fun z hz => ⟨hsame z ?_, hf z⟩).1
  rintro rfl
  exact hle hz

/-- Runs are equal where their bottoms are, and deeper by the number of turns. -/
theorem iterate_eq_of_eq {f g : α → β} {k : Nat}
    (hbottom : ∀ x, measure x < k → f x = g x ∧ Good x (f x)) (n : Nat) {x : α}
    (hx : measure x < n + k) : turn^[n] f x = turn^[n] g x ∧ Good x (turn^[n] f x) := by
  induction n generalizing x with
  | zero => exact hbottom x (by omega)
  | succ n ih =>
    rw [Function.iterate_succ_apply', Function.iterate_succ_apply']
    exact h _ _ x fun y hy => ih (by omega)

/-- With enough turns, neither their number nor what is at the bottom makes a difference. -/
theorem iterate_eq (f g : α → β) {m n : Nat} {x : α} (hm : measure x < m) (hn : measure x < n) :
    turn^[m] f x = turn^[n] g x := by
  obtain ⟨k, rfl⟩ := Nat.exists_eq_add_of_lt hm
  obtain ⟨l, rfl⟩ := Nat.exists_eq_add_of_lt hn
  rw [show measure x + k + 1 = measure x + 1 + k by omega,
    show measure x + l + 1 = measure x + 1 + l by omega,
    Function.iterate_add_apply turn (measure x + 1) k f,
    Function.iterate_add_apply turn (measure x + 1) l g]
  exact (h.iterate_eq_of_eq (k := 0) (fun _ hlt => absurd hlt (Nat.not_lt_zero _)) _ (by omega)).1

/-- A recursion whose turns call for what is smaller ends with the function that some runs, deep
enough for each argument, come to. -/
theorem endsWith {f : α → β} (hf : ∀ x, ∃ bottom n, measure x < n ∧ f x = turn^[n] bottom x) :
    EndsWith turn (measure · + 1) f := by
  have hrun (beyond : α → β) {n : Nat} {x : α} (hx : measure x < n) :
      turn^[n] beyond x = f x := by
    obtain ⟨bottom, m, hm, hfx⟩ := hf x
    rw [hfx]
    exact h.iterate_eq beyond bottom hx hm
  have hgood (x : α) : Good x (f x) := by
    rw [← hrun f (Nat.lt_succ_self (measure x))]
    exact (h.iterate_eq_of_eq (g := f) (k := 0)
      (fun _ hlt => absurd hlt (Nat.not_lt_zero _)) _ (Nat.lt_succ_self _)).2
  refine ⟨funext fun x => ?_, fun beyond n x hx => hrun beyond hx⟩
  rw [← hrun f (Nat.lt_succ_self (measure x)), Function.iterate_succ_apply']
  exact (h f _ x fun y hy => ⟨(hrun f hy).symm, hgood y⟩).1

section Bounded

-- `f n` is a run with a bound of its own; where nothing is smaller, one turn does what none does
variable {f : Nat → α → β} (hsucc : ∀ n, f (n + 1) = turn (f n))
  (hbottom : ∀ x, measure x = 0 → f 0 x = f 1 x ∧ Good x (f 0 x))

include hsucc hbottom

/-- A bound as large as the argument is enough, whatever stands at the bottom otherwise. -/
theorem bounded_eq (beyond : α → β) {m n : Nat} {x : α} (hm : measure x ≤ m) (hn : measure x < n) :
    f m x = turn^[n] beyond x := by
  have hone := (h.iterate_eq_of_eq (k := 1)
    (fun y hy => hbottom y (Nat.lt_one_iff.1 hy)) m (Nat.lt_succ_of_le hm)).1
  rw [hsucc 0, ← Function.iterate_succ_apply, iterate_eq_of_succ hsucc] at hone
  rw [hone]
  exact h.iterate_eq (f 0) beyond (Nat.lt_succ_of_le hm) hn

theorem endsWith_bounded : EndsWith turn (measure · + 1) fun x => f (measure x) x :=
  h.endsWith fun x => ⟨f 0, measure x + 1, Nat.lt_succ_self _,
    h.bounded_eq hsucc hbottom (f 0) (Nat.le_refl _) (Nat.lt_succ_self _)⟩

end Bounded

end Descends

end Commentary.Recursion
