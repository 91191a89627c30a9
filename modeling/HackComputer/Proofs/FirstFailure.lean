import Mathlib.Data.List.Forall2

/-!
# `HackComputer.Proofs.FirstFailure`: walks that end at the first failure

Texts are read line by line and programs are compiled line by line. Both walks
end at the first line that fails, and its error is the answer. `FirstFailure`
says this without a walk: everything before some member is in order, and that
member is not.

* `mapM_eq_ok_iff`, `mapM_eq_some_iff`, `mapM_eq_error_iff`: a walk that collects
  what it reads.
* `foldlM_eq_error_iff`: a walk that carries a state, if the state has no part
  in what fails.
* `exists_firstFailure_iff`: something fails exactly if something fails first.
-/

set_option autoImplicit false

namespace HackComputer

variable {ε α β σ : Type}

/-- The first member that fails does so with `e`. -/
def FirstFailure (Fails : α → ε → Prop) (xs : List α) (e : ε) : Prop :=
  ∃ before x after, xs = before ++ x :: after ∧ (∀ y ∈ before, ∀ e', ¬Fails y e') ∧ Fails x e

section
variable {Fails : α → ε → Prop} {x : α} {xs : List α} {e : ε}

/-- Nothing fails where there is nothing. -/
theorem not_firstFailure_nil : ¬FirstFailure Fails [] e := by
  rintro ⟨before, x, after, hxs, -⟩
  simp at hxs

/-- A member in front that fails is the first failure. -/
theorem firstFailure_cons_of_fails {first : ε} (h : Fails x first) :
    FirstFailure Fails (x :: xs) e ↔ Fails x e := by
  constructor
  · rintro ⟨_ | ⟨y, before⟩, z, after, hxs, hbefore, hz⟩
    · obtain ⟨rfl, -⟩ := List.cons.inj hxs
      exact hz
    · obtain ⟨rfl, -⟩ := List.cons.inj hxs
      exact absurd h (hbefore x List.mem_cons_self first)
  · intro hx
    exact ⟨[], x, xs, rfl, by simp, hx⟩

/-- Behind a member that does not fail the first failure is the same. -/
theorem firstFailure_cons_of_not (h : ∀ e', ¬Fails x e') :
    FirstFailure Fails (x :: xs) e ↔ FirstFailure Fails xs e := by
  constructor
  · rintro ⟨_ | ⟨y, before⟩, z, after, hxs, hbefore, hz⟩
    · obtain ⟨rfl, -⟩ := List.cons.inj hxs
      exact absurd hz (h e)
    · obtain ⟨rfl, rfl⟩ := List.cons.inj hxs
      exact ⟨before, z, after, rfl, (List.forall_mem_cons.mp hbefore).2, hz⟩
  · rintro ⟨before, z, after, rfl, hbefore, hz⟩
    exact ⟨x :: before, z, after, rfl, List.forall_mem_cons.mpr ⟨h, hbefore⟩, hz⟩

/-- **Something fails exactly if something fails first.** -/
theorem exists_firstFailure_iff :
    (∃ e, FirstFailure Fails xs e) ↔ ∃ x ∈ xs, ∃ e, Fails x e := by
  constructor
  · rintro ⟨e, before, x, after, rfl, -, hx⟩
    exact ⟨x, by simp, e, hx⟩
  · -- Whichever member fails, the walk from the front meets a first one.
    intro h
    induction xs with
    | nil => simp at h
    | cons y ys ih =>
        by_cases hy : ∃ e, Fails y e
        · obtain ⟨e, hy⟩ := hy
          exact ⟨e, (firstFailure_cons_of_fails hy).mpr hy⟩
        · have hnot : ∀ e, ¬Fails y e := not_exists.mp hy
          simp only [firstFailure_cons_of_not hnot]
          refine ih ?_
          obtain ⟨x, hx, e, hfail⟩ := h
          rcases List.mem_cons.mp hx with rfl | hx
          · exact absurd hfail (hnot e)
          · exact ⟨x, hx, e, hfail⟩

end

/-- What is read one by one is all there, in order. -/
theorem mapM_eq_ok_iff {f : α → Except ε β} {xs : List α} {ys : List β} :
    xs.mapM f = .ok ys ↔ List.Forall₂ (fun x y => f x = .ok y) xs ys := by
  induction xs generalizing ys with
  | nil => cases ys <;> simp [pure, Except.pure]
  | cons x xs ih =>
      rw [List.mapM_cons, List.forall₂_cons_left_iff]
      cases hx : f x with
      | error e => simp [bind, Except.bind]
      | ok y =>
          cases hxs : xs.mapM f with
          | error e => simp [bind, Except.bind, ← ih, hxs]
          | ok rest => simp [bind, Except.bind, pure, Except.pure, ← ih, hxs, eq_comm]

/-- The same for reading that does not say why it fails. -/
theorem mapM_eq_some_iff {f : α → Option β} {xs : List α} {ys : List β} :
    xs.mapM f = some ys ↔ List.Forall₂ (fun x y => f x = some y) xs ys := by
  induction xs generalizing ys with
  | nil => cases ys <;> simp
  | cons x xs ih =>
      rw [List.mapM_cons, List.forall₂_cons_left_iff]
      simp [Option.bind_eq_some_iff, ← ih, @eq_comm _ ys]

/-- **Reading one by one ends at the first failure.** -/
theorem mapM_eq_error_iff {f : α → Except ε β} {xs : List α} {e : ε} :
    xs.mapM f = .error e ↔ FirstFailure (fun x e => f x = .error e) xs e := by
  induction xs with
  | nil => exact iff_of_false nofun not_firstFailure_nil
  | cons x xs ih =>
      rw [List.mapM_cons]
      cases hx : f x with
      | error first =>
          have hfirst : FirstFailure (fun x e => f x = .error e) (x :: xs) e ↔ f x = .error e :=
            firstFailure_cons_of_fails hx
          rw [hfirst, hx]
          simp [bind, Except.bind]
      | ok y =>
          have hnot : ∀ e', ¬f x = .error e' := by simp [hx]
          rw [firstFailure_cons_of_not hnot, ← ih]
          cases xs.mapM f with
          | error later => exact ⟨fun h => h, fun h => h⟩
          | ok rest => exact ⟨nofun, nofun⟩

/-- **A walk with a state ends at the first failure**, if the state has no part
in what fails and how. -/
theorem foldlM_eq_error_iff {f : σ → α → Except ε σ} {Fails : α → ε → Prop} {xs : List α}
    (hfails : ∀ x ∈ xs, ∀ s e, f s x = .error e ↔ Fails x e) (s : σ) (e : ε) :
    xs.foldlM f s = .error e ↔ FirstFailure Fails xs e := by
  induction xs generalizing s with
  | nil => exact iff_of_false nofun not_firstFailure_nil
  | cons x xs ih =>
      obtain ⟨hfirst, hrest⟩ := List.forall_mem_cons.mp hfails
      rw [List.foldlM_cons]
      cases hx : f s x with
      | error first =>
          rw [firstFailure_cons_of_fails ((hfirst s first).mp hx), ← hfirst s e, hx]
          rfl
      | ok t =>
          -- The member is in order from this state, so it is from every other.
          have hnot : ∀ e', ¬Fails x e' := by simp [← hfirst s, hx]
          rw [firstFailure_cons_of_not hnot, ← ih hrest t]
          rfl

end HackComputer
