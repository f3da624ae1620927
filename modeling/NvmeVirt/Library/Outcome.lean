import Mathlib.Logic.Function.Basic
import Mathlib.Tactic.Common

/-!
# Postconditions for computations that may abort

A step of a program that asserts is a value of `Except ε σ`. `Outcome r Q E`
says that a normal result of `r` satisfies `Q` and that an abort satisfies `E`.
The rules are those of a weakest-precondition calculus: sequencing, weakening,
conditionals, and one rule for loops over a list, whose invariant sees the
elements still to be visited.
-/

namespace Checked

variable {ε α β σ : Type}

/-- A normal result satisfies `Q`; an abort satisfies `E`. -/
def Outcome (r : Except ε α) (Q : α → Prop) (E : ε → Prop) : Prop :=
  match r with
  | .ok a => Q a
  | .error e => E e

@[simp] theorem outcome_ok {a : α} {Q : α → Prop} {E : ε → Prop} :
    Outcome (.ok a) Q E ↔ Q a := Iff.rfl

@[simp] theorem outcome_error {e : ε} {Q : α → Prop} {E : ε → Prop} :
    Outcome (.error e) Q E ↔ E e := Iff.rfl

@[simp] theorem outcome_pure {a : α} {Q : α → Prop} {E : ε → Prop} :
    Outcome (pure a) Q E ↔ Q a := Iff.rfl

@[simp] theorem ok_bind {a : α} {f : α → Except ε β} : (Except.ok a >>= f) = f a := rfl

/-- Weakening of both postconditions. -/
theorem Outcome.mono {r : Except ε α} {Q Q' : α → Prop} {E E' : ε → Prop}
    (h : Outcome r Q E) (hq : ∀ a, Q a → Q' a) (he : ∀ e, E e → E' e) : Outcome r Q' E' := by
  cases r with
  | ok a => exact hq a h
  | error e => exact he e h

/-- Sequencing: the second computation starts from what the first establishes. -/
theorem Outcome.bind {r : Except ε α} {f : α → Except ε β} {Q : α → Prop} {R : β → Prop}
    {E : ε → Prop} (h : Outcome r Q E) (hf : ∀ a, Q a → Outcome (f a) R E) :
    Outcome (r >>= f) R E := by
  cases r with
  | ok a => exact hf a h
  | error e => exact h

/-- Two facts about the same run hold together. -/
theorem Outcome.and {r : Except ε α} {Q Q' : α → Prop} {E E' : ε → Prop}
    (h : Outcome r Q E) (h' : Outcome r Q' E') :
    Outcome r (fun a => Q a ∧ Q' a) (fun e => E e ∧ E' e) := by
  cases r with
  | ok a => exact ⟨h, h'⟩
  | error e => exact ⟨h, h'⟩

/-- A fact about normal results, with nothing said about aborts. -/
theorem Outcome.of_forall_ok {r : Except ε α} {Q : α → Prop} (h : ∀ a, r = .ok a → Q a) :
    Outcome r Q fun _ => True := by
  cases r with
  | ok a => exact h a rfl
  | error e => trivial

/-- A fact about aborts, with nothing said about normal results. -/
theorem Outcome.of_forall_error {r : Except ε α} {E : ε → Prop} (h : ∀ e, r = .error e → E e) :
    Outcome r (fun _ => True) E := by
  cases r with
  | ok a => trivial
  | error e => exact h e rfl

/-- Reading the postcondition of a normal result back. -/
theorem Outcome.of_ok {r : Except ε α} {Q : α → Prop} {E : ε → Prop} (h : Outcome r Q E)
    {a : α} (hr : r = .ok a) : Q a := by
  subst hr
  exact h

/-- Reading the postcondition of an abort back. -/
theorem Outcome.of_error {r : Except ε α} {Q : α → Prop} {E : ε → Prop} (h : Outcome r Q E)
    {e : ε} (hr : r = .error e) : E e := by
  subst hr
  exact h

/-- The rule for a counting loop: the invariant is indexed by the rounds done. -/
theorem outcome_foldlM_range {f : σ → Nat → Except ε σ} {E : ε → Prop} {n : Nat}
    (inv : Nat → σ → Prop) (hstep : ∀ k < n, ∀ s, inv k s → Outcome (f s k) (inv (k + 1)) E)
    {s : σ} (h : inv 0 s) : Outcome ((List.range n).foldlM f s) (inv n) E := by
  induction n with
  | zero => exact h
  | succ n ih =>
    rw [List.range_succ, List.foldlM_append]
    refine (ih fun k hk => hstep k (Nat.lt_succ_of_lt hk)).bind fun s' hs' => ?_
    rw [List.foldlM_cons]
    exact (hstep n (Nat.lt_succ_self n) s' hs').bind fun s'' hs'' => hs''

/-- A counting loop ends in the abort of the first round that aborts. -/
theorem foldlM_range_eq_error {f : σ → Nat → Except ε σ} {s s' : σ} {e : ε} {k n : Nat}
    (hrun : (List.range k).foldlM f s = .ok s') (herror : f s' k = .error e) (hk : k < n) :
    (List.range n).foldlM f s = .error e := by
  induction n with
  | zero => omega
  | succ n ih =>
    rw [List.range_succ, List.foldlM_append]
    by_cases heq : k = n
    · subst heq
      rw [hrun, ok_bind, List.foldlM_cons, herror]
      rfl
    · rw [ih (by omega)]
      rfl

/-- The loop rule for an invariant that does not mention the position. -/
theorem outcome_foldlM_const {f : σ → α → Except ε σ} {E : ε → Prop} (inv : σ → Prop)
    {l : List α} (hstep : ∀ a ∈ l, ∀ s, inv s → Outcome (f s a) inv E) (s : σ) (h : inv s) :
    Outcome (l.foldlM f s) inv E := by
  induction l generalizing s with
  | nil => exact h
  | cons a rest ih =>
    rw [List.foldlM_cons]
    exact (hstep a (List.mem_cons_self ..) s h).bind fun s' hs' =>
      ih (fun b hb => hstep b (List.mem_cons_of_mem _ hb)) s' hs'

/-- Every round that a loop reaches starts from a state that satisfies `C`. -/
def Throughout (f : σ → α → Except ε σ) (C : σ → α → Prop) : List α → σ → Prop
  | [], _ => True
  | a :: rest, s => C s a ∧ ∀ s', f s a = .ok s' → Throughout f C rest s'

/-- A condition that always holds holds throughout. -/
theorem throughout_of_forall {f : σ → α → Except ε σ} {C : σ → α → Prop} (h : ∀ s a, C s a)
    (l : List α) (s : σ) : Throughout f C l s := by
  induction l generalizing s with
  | nil => trivial
  | cons a rest ih => exact ⟨h s a, fun s' _ => ih s'⟩

/-- A condition throughout the loop may be weakened. -/
theorem Throughout.mono {f : σ → α → Except ε σ} {C C' : σ → α → Prop} {l : List α} {s : σ}
    (h : Throughout f C l s) (hc : ∀ s a, C s a → C' s a) : Throughout f C' l s := by
  induction l generalizing s with
  | nil => trivial
  | cons a rest ih => exact ⟨hc s a h.1, fun s' hs' => ih (h.2 s' hs')⟩

/-- Two conditions that hold throughout hold together. -/
theorem Throughout.and {f : σ → α → Except ε σ} {C C' : σ → α → Prop} {l : List α} {s : σ}
    (h : Throughout f C l s) (h' : Throughout f C' l s) :
    Throughout f (fun s a => C s a ∧ C' s a) l s := by
  induction l generalizing s with
  | nil => trivial
  | cons a rest ih => exact ⟨⟨h.1, h'.1⟩, fun s' hs' => ih (h.2 s' hs') (h'.2 s' hs')⟩

/-- A condition that an invariant implies holds throughout. -/
theorem Throughout.of_invariant {f : σ → α → Except ε σ} {C : σ → α → Prop} {E : ε → Prop}
    (inv : σ → Prop) (hcond : ∀ s a, inv s → C s a)
    (hstep : ∀ s a, inv s → C s a → Outcome (f s a) inv E) (l : List α) {s : σ} (h : inv s) :
    Throughout f C l s := by
  induction l generalizing s with
  | nil => trivial
  | cons a rest ih =>
    have hc := hcond s a h
    exact ⟨hc, fun s' hs' => ih ((hstep s a h hc).of_ok hs')⟩

/-- Two conditions that say the same wherever an invariant holds say the same throughout. -/
theorem throughout_iff {f : σ → α → Except ε σ} {C C' : σ → α → Prop} (inv : σ → Prop)
    {l : List α} (hiff : ∀ a ∈ l, ∀ s, inv s → (C s a ↔ C' s a))
    (hstep : ∀ a ∈ l, ∀ s, inv s → C s a → ∀ s', f s a = .ok s' → inv s') {s : σ} (h : inv s) :
    Throughout f C l s ↔ Throughout f C' l s := by
  induction l generalizing s with
  | nil => rfl
  | cons a rest ih =>
    have hhead := hiff a (List.mem_cons_self ..) s h
    have htail : ∀ s', C s a → f s a = .ok s' →
        (Throughout f C rest s' ↔ Throughout f C' rest s') := by
      intro s' hc hs'
      apply ih
      · exact fun b hb => hiff b (List.mem_cons_of_mem _ hb)
      · exact fun b hb => hstep b (List.mem_cons_of_mem _ hb)
      · exact hstep a (List.mem_cons_self ..) s h hc s' hs'
    constructor
    · rintro ⟨hc, hrest⟩
      exact ⟨hhead.mp hc, fun s' hs' => (htail s' hc hs').mp (hrest s' hs')⟩
    · rintro ⟨hc', hrest⟩
      have hc := hhead.mpr hc'
      exact ⟨hc, fun s' hs' => (htail s' hc hs').mpr (hrest s' hs')⟩

/-- A condition that holds throughout holds at the round that a part of the loop comes to. -/
theorem Throughout.at_append {f : σ → α → Except ε σ} {C : σ → α → Prop} {l l' : List α} {a : α}
    {s s' : σ} (h : Throughout f C (l ++ a :: l') s) (hrun : l.foldlM f s = .ok s') : C s' a := by
  induction l generalizing s with
  | nil =>
    cases hrun
    exact h.1
  | cons b rest ih =>
    rw [List.foldlM_cons] at hrun
    cases hb : f s b with
    | error e =>
      rw [hb] at hrun
      cases hrun
    | ok s₁ =>
      rw [hb] at hrun
      exact ih (h.2 s₁ hb) hrun

/-- The loop rule under a condition that holds throughout. -/
theorem Throughout.outcome {f : σ → α → Except ε σ} {C : σ → α → Prop} {E : ε → Prop}
    {l : List α} {s : σ} (hc : Throughout f C l s) (inv : σ → Prop)
    (hstep : ∀ a ∈ l, ∀ s, inv s → C s a → Outcome (f s a) inv E) (h : inv s) :
    Outcome (l.foldlM f s) inv E := by
  induction l generalizing s with
  | nil => exact h
  | cons a rest ih =>
    rw [List.foldlM_cons]
    have hround := hstep a (List.mem_cons_self ..) s h hc.1
    cases hr : f s a with
    | error e =>
      rw [hr] at hround
      exact hround
    | ok s' =>
      rw [hr] at hround
      exact ih (hc.2 s' hr) (fun b hb => hstep b (List.mem_cons_of_mem _ hb)) hround

/-- An assertion: the program aborts with `e` unless the condition holds. -/
def require (c : Prop) [Decidable c] (e : ε) : Except ε Unit :=
  if c then .ok () else .error e

/-- An assertion whose condition holds does nothing. -/
theorem require_pos {c : Prop} [Decidable c] {e : ε} (h : c) : require c e = .ok () := by
  rw [require, if_pos h]

theorem require_neg {c : Prop} [Decidable c] {e : ε} (h : ¬ c) : require c e = .error e := by
  rw [require, if_neg h]

/-- Only the two values decide what an assertion does. -/
theorem require_eq_ok {c : Prop} [Decidable c] {e : ε} {u : Unit} :
    require c e = .ok u ↔ c := by
  unfold require
  split <;> simp_all

theorem outcome_require {c : Prop} [Decidable c] {e : ε} {Q : Unit → Prop} {E : ε → Prop}
    (hq : c → Q ()) (he : ¬ c → E e) : Outcome (require c e) Q E := by
  unfold require
  split
  · exact hq ‹_›
  · exact he ‹_›

/-- A sequence that succeeds is two computations that succeed. -/
theorem bind_eq_ok {r : Except ε α} {f : α → Except ε β} {b : β} :
    (r >>= f) = .ok b ↔ ∃ a, r = .ok a ∧ f a = .ok b := by
  constructor
  · intro h
    cases r with
    | ok a => exact ⟨a, rfl, h⟩
    | error e => cases h
  · rintro ⟨a, rfl, h⟩
    exact h

/-- Reading a function of the result back. -/
theorem except_map_eq_ok {r : Except ε α} {f : α → β} {b : β} :
    r.map f = .ok b ↔ ∃ a, r = .ok a ∧ f a = b := by
  constructor
  · intro h
    cases r with
    | ok a => exact ⟨a, rfl, Except.ok.inj h⟩
    | error e => cases h
  · rintro ⟨a, rfl, rfl⟩
    rfl

end Checked
