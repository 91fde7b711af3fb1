import Mathlib.Logic.Relation
import Mathlib.Tactic

/-!
# Fallible computations and loops

Inversion of successful `Except` computations, and a small logic of their outcomes.
`Except.Ensures x E Q` says that `x` returns only values that satisfy `Q` and fails only with errors
that satisfy `E`: with an `E` that holds of every error it is partial correctness, with an `E` that
holds of none it is total correctness. Computations are taken apart by `Ensures.bind`, loops by

* `Ensures.foldlM` — what every iteration preserves, the loop preserves;
* `Ensures.foldlM_suffix` — the same with an invariant that may speak about the work still to do;
* `Ensures.foldlM_each` — elements that are ready at the start are each handled once.

The last section is the corresponding rule for transition systems: an invariant of every step is an
invariant of every run.
-/

namespace Except

universe u v w

variable {ε : Type u} {α β : Type v}

/-- A successful `bind` is two successful computations. -/
theorem bind_eq_ok {x : Except ε α} {f : α → Except ε β} {b : β} :
    (x >>= f) = .ok b ↔ ∃ a, x = .ok a ∧ f a = .ok b := by
  rcases x with e | a
  · simp [bind, Except.bind]
  · simp [bind, Except.bind]

@[simp] theorem ok_bind (a : α) (f : α → Except ε β) : ((Except.ok a : Except ε α) >>= f) = f a :=
  rfl

@[simp] theorem error_bind (e : ε) (f : α → Except ε β) :
    ((Except.error e : Except ε α) >>= f) = .error e :=
  rfl

theorem pure_eq_ok {a b : α} : (pure a : Except ε α) = .ok b ↔ a = b := by
  simp [pure, Except.pure]

@[simp] theorem throw_eq_error (e : ε) : (throw e : Except ε α) = .error e := rfl

/-- A guarded failure succeeds exactly when the guard is false. -/
theorem ite_error_eq_ok {p : Prop} [Decidable p] {e : ε} {x : Except ε α} {a : α} :
    (if p then .error e else x) = .ok a ↔ ¬p ∧ x = .ok a := by
  by_cases h : p <;> simp [h]

/-! ### Outcomes -/

/-- `x` returns only values that satisfy `Q` and fails only with errors that satisfy `E`. -/
def Ensures (x : Except ε α) (E : ε → Prop) (Q : α → Prop) : Prop :=
  match x with
  | .ok a => Q a
  | .error e => E e

namespace Ensures

variable {E : ε → Prop} {Q R : α → Prop} {x : Except ε α}

theorem ok {a : α} (h : Q a) : Ensures (.ok a : Except ε α) E Q := h

theorem pure {a : α} (h : Q a) : Ensures (Pure.pure a : Except ε α) E Q := h

theorem error {e : ε} (h : E e) : Ensures (.error e : Except ε α) E Q := h

theorem of_ok {a : α} (h : Ensures x E Q) (hx : x = .ok a) : Q a := by
  subst hx
  exact h

theorem of_error {e : ε} (h : Ensures x E Q) (hx : x = .error e) : E e := by
  subst hx
  exact h

theorem of_exists (h : ∃ a, x = .ok a ∧ Q a) : Ensures x E Q := by
  obtain ⟨a, rfl, ha⟩ := h
  exact ha

/-- Total correctness, spelled out. -/
theorem exists_ok (h : Ensures x (fun _ ↦ False) Q) : ∃ a, x = .ok a ∧ Q a := by
  rcases x with e | a
  · exact h.elim
  · exact ⟨a, rfl, h⟩

/-- A computation that has no reason to fail succeeds. -/
theorem exists_ok_of (h : Ensures x E Q) (hE : ∀ e, ¬E e) : ∃ a, x = .ok a ∧ Q a := by
  rcases x with e | a
  · exact absurd h (hE e)
  · exact ⟨a, rfl, h⟩

/-- Partial correctness, spelled out. -/
theorem of_forall (h : ∀ a, x = .ok a → Q a) : Ensures x (fun _ ↦ True) Q := by
  rcases x with e | a
  · trivial
  · exact h a rfl

/-- A computation about which nothing is said. -/
theorem any (x : Except ε α) : Ensures x (fun _ ↦ True) fun _ ↦ True :=
  of_forall fun _ _ ↦ trivial

theorem mono (h : Ensures x E Q) (hQ : ∀ a, Q a → R a) : Ensures x E R := by
  rcases x with e | a
  · exact h
  · exact hQ a h

theorem and (h : Ensures x E Q) (h' : Ensures x E R) : Ensures x E fun a ↦ Q a ∧ R a := by
  rcases x with e | a
  · exact h
  · exact ⟨h, h'⟩

/-- What is known about the values that are returned, whatever the failures are. -/
theorem and_any (h : Ensures x E Q) (h' : Ensures x (fun _ ↦ True) R) :
    Ensures x E fun a ↦ Q a ∧ R a := by
  rcases x with e | a
  · exact h
  · exact ⟨h, h'⟩

/-- The value that is returned, with what is known about it. -/
theorem with_eq (h : Ensures x E Q) : Ensures x E fun a ↦ x = .ok a ∧ Q a := by
  rcases x with e | a
  · exact h
  · exact ⟨rfl, h⟩

/-- **Sequencing.** -/
theorem bind {f : α → Except ε β} {R : β → Prop} (h : Ensures x E Q)
    (hf : ∀ a, Q a → Ensures (f a) E R) : Ensures (x >>= f) E R := by
  rcases x with e | a
  · exact h
  · exact hf a h

/-- Sequencing after a computation whose value is known. -/
theorem bind_of_eq {f : α → Except ε β} {R : β → Prop} {a : α} (h : x = .ok a)
    (hf : Ensures (f a) E R) : Ensures (x >>= f) E R := by
  subst h
  exact hf

/-- Continuations that agree on the results of a computation. -/
theorem bind_congr {f g : α → Except ε β} (h : Ensures x E Q) (hfg : ∀ a, Q a → f a = g a) :
    x >>= f = x >>= g := by
  cases x with
  | ok a => exact hfg a h
  | error e => rfl

section Loops

variable {σ : Type v} {ι : Type*} {f : σ → ι → Except ε σ}

/-- **Loop invariant.** What every iteration preserves, the loop preserves. -/
theorem foldlM (I : σ → Prop) {l : List ι} (hstep : ∀ a ∈ l, ∀ s, I s → Ensures (f s a) E I) {s : σ}
    (hs : I s) : Ensures (l.foldlM f s) E I := by
  induction l generalizing s with
  | nil => exact hs
  | cons a l ih =>
    rw [List.foldlM_cons]
    exact (hstep a List.mem_cons_self s hs).bind fun s' hs' ↦
      ih (fun b hb ↦ hstep b (List.mem_cons_of_mem _ hb)) hs'

/-- **Loop invariant with the remaining work.** -/
theorem foldlM_suffix (I : List ι → σ → Prop)
    (hstep : ∀ a l s, I (a :: l) s → Ensures (f s a) E (I l)) {l : List ι} {s : σ} (hs : I l s) :
    Ensures (l.foldlM f s) E (I []) := by
  induction l generalizing s with
  | nil => exact hs
  | cons a l ih =>
    rw [List.foldlM_cons]
    exact (hstep a l s hs).bind fun s' hs' ↦ ih hs'

/-- **Each element once.** `P a s` says that `a` is ready to be handled in state `s`, `R a s` that it
has been handled. Handling an element changes neither for the others. -/
theorem foldlM_each_done {κ : Type*} (key : ι → κ) (I : σ → Prop) (P R : ι → σ → Prop)
    (hstep : ∀ a s, I s → P a s → Ensures (f s a) E fun s' ↦ (I s' ∧ R a s') ∧
      ∀ b, key b ≠ key a → (P b s → P b s') ∧ (R b s → R b s'))
    {l : List ι} (hnd : (l.map key).Nodup) {s : σ} (hP : ∀ a ∈ l, P a s) (hs : I s) :
    Ensures (l.foldlM f s) E fun s' ↦ I s' ∧ ∀ a ∈ l, R a s' := by
  let J (l' : List ι) (s : σ) : Prop :=
    ∃ done, l = done ++ l' ∧ I s ∧ (∀ a ∈ done, R a s) ∧ ∀ a ∈ l', P a s
  have hJ : ∀ a l' s, J (a :: l') s → Ensures (f s a) E (J l') := by
    rintro a l' s ⟨done, rfl, hs, hR, hP⟩
    refine (hstep a s hs (hP a List.mem_cons_self)).mono ?_
    rintro s' ⟨⟨hs', hRa⟩, hothers⟩
    rw [List.map_append, List.nodup_append, List.map_cons, List.nodup_cons] at hnd
    refine ⟨done ++ [a], by simp, hs', fun b hb ↦ ?_, fun b hb ↦ ?_⟩
    · rcases List.mem_append.1 hb with hb | hb
      · exact (hothers b fun heq ↦ hnd.2.2 _ (List.mem_map_of_mem hb) _ List.mem_cons_self heq).2
          (hR b hb)
      · rw [List.mem_singleton.1 hb]
        exact hRa
    · exact (hothers b fun heq ↦ hnd.2.1.1 (heq ▸ List.mem_map_of_mem hb)).1
        (hP b (List.mem_cons_of_mem _ hb))
  refine (foldlM_suffix J hJ ⟨[], rfl, hs, by simp, hP⟩).mono ?_
  rintro s' ⟨done, hl, hs', hR, -⟩
  rw [hl, List.append_nil]
  exact ⟨hs', hR⟩

/-- Each element once, without a trace of what has been handled. -/
theorem foldlM_each {κ : Type*} (key : ι → κ) (I : σ → Prop) (P : ι → σ → Prop)
    (hstep : ∀ a s, I s → P a s →
      Ensures (f s a) E fun s' ↦ I s' ∧ ∀ b, key b ≠ key a → P b s → P b s')
    {l : List ι} (hnd : (l.map key).Nodup) {s : σ} (hP : ∀ a ∈ l, P a s) (hs : I s) :
    Ensures (l.foldlM f s) E I := by
  refine (foldlM_each_done key I P (fun _ _ ↦ True) (fun a s hs ha ↦ ?_) hnd hP hs).mono
    fun _ h ↦ h.1
  exact (hstep a s hs ha).mono fun _ ⟨hs', hothers⟩ ↦
    ⟨⟨hs', trivial⟩, fun b hb ↦ ⟨hothers b hb, fun _ ↦ trivial⟩⟩

end Loops

/-- A search finds an element of the list. -/
theorem findM? {ι : Type} {l : List ι} {f : ι → Except ε Bool}
    (hf : ∀ a ∈ l, Ensures (f a) E fun _ ↦ True) :
    Ensures (l.findM? f) E fun r ↦ ∀ a, r = some a → a ∈ l := by
  induction l with
  | nil => exact fun a ha ↦ by cases ha
  | cons a l ih =>
    rw [List.findM?]
    refine (hf a List.mem_cons_self).bind fun b _ ↦ ?_
    cases b with
    | true =>
      exact fun c hc ↦ Option.some.inj hc ▸ List.mem_cons_self
    | false =>
      exact (ih fun b hb ↦ hf b (List.mem_cons_of_mem _ hb)).mono fun r hr c hc ↦
        List.mem_cons_of_mem _ (hr c hc)

theorem mapM {ι : Type w} {l : List ι} {f : ι → Except ε α}
    (hf : ∀ a ∈ l, Ensures (f a) E fun _ ↦ True) : Ensures (l.mapM f) E fun _ ↦ True := by
  induction l with
  | nil => exact trivial
  | cons a l ih =>
    rw [List.mapM_cons]
    refine (hf a List.mem_cons_self).bind fun _ _ ↦ ?_
    exact (ih fun b hb ↦ hf b (List.mem_cons_of_mem _ hb)).bind fun _ _ ↦ trivial

/-- A conditional, by cases on its condition only. -/
theorem ite {p : Prop} [Decidable p] {y : Except ε α} (h : p → Ensures x E Q)
    (h' : ¬p → Ensures y E Q) : Ensures (if p then x else y) E Q := by
  by_cases hp : p
  · rw [if_pos hp]
    exact h hp
  · rw [if_neg hp]
    exact h' hp

/-- A check of every element of a list. -/
theorem forM {ι : Type} {l : List ι} {f : ι → Except ε PUnit} {Q : ι → Prop}
    (hf : ∀ a ∈ l, Ensures (f a) E fun _ ↦ Q a) : Ensures (l.forM f) E fun _ ↦ ∀ a ∈ l, Q a := by
  induction l with
  | nil => exact fun a ha ↦ by cases ha
  | cons a l ih =>
    rw [List.forM]
    refine (hf a List.mem_cons_self).bind fun _ ha ↦ ?_
    refine (ih fun b hb ↦ hf b (List.mem_cons_of_mem _ hb)).mono fun _ hl b hb ↦ ?_
    rcases List.mem_cons.1 hb with rfl | hb
    · exact ha
    · exact hl b hb

/-- A conjunction over a list stops at the first element that fails it. -/
theorem allM {ι : Type} {l : List ι} {f : ι → Except ε Bool} {Q : ι → Prop}
    (hf : ∀ a ∈ l, Ensures (f a) E fun b ↦ b = true → Q a) :
    Ensures (l.allM f) E fun b ↦ b = true → ∀ a ∈ l, Q a := by
  induction l with
  | nil => exact fun _ a ha ↦ by cases ha
  | cons a l ih =>
    rw [List.allM]
    refine (hf a List.mem_cons_self).bind fun b hb ↦ ?_
    cases b with
    | true =>
      refine (ih fun c hc ↦ hf c (List.mem_cons_of_mem _ hc)).mono fun r hr hr' c hc ↦ ?_
      rcases List.mem_cons.1 hc with rfl | hc
      · exact hb rfl
      · exact hr hr' c hc
    | false => exact fun h ↦ by cases h

end Ensures

/-- A loop completes when every element passes its check; the checks read what the loop keeps. -/
theorem exists_foldlM_ok_iff {σ : Type v} {ι : Type*} {f : σ → ι → Except ε σ} (I : σ → Prop) (C : ι → Prop)
    {l : List ι} (hstep : ∀ a ∈ l, ∀ s, I s → ((∃ s', f s a = .ok s') ↔ C a))
    (hkeep : ∀ a ∈ l, ∀ s s', I s → f s a = .ok s' → I s') {s : σ} (hs : I s) :
    (∃ s', l.foldlM f s = .ok s') ↔ ∀ a ∈ l, C a := by
  induction l generalizing s with
  | nil => exact iff_of_true ⟨s, rfl⟩ fun a ha ↦ by cases ha
  | cons a l ih =>
    have ih' (s₁ : σ) (hs₁ : I s₁) := ih (fun b hb ↦ hstep b (List.mem_cons_of_mem _ hb))
      (fun b hb ↦ hkeep b (List.mem_cons_of_mem _ hb)) hs₁
    rw [List.foldlM_cons, List.forall_mem_cons, ← hstep a List.mem_cons_self s hs]
    constructor
    · rintro ⟨s', h⟩
      obtain ⟨s₁, hs₁, hrest⟩ := bind_eq_ok.1 h
      exact ⟨⟨s₁, hs₁⟩, (ih' s₁ (hkeep a List.mem_cons_self s s₁ hs hs₁)).1 ⟨s', hrest⟩⟩
    · rintro ⟨⟨s₁, hs₁⟩, hl⟩
      obtain ⟨s', hs'⟩ := (ih' s₁ (hkeep a List.mem_cons_self s s₁ hs hs₁)).2 hl
      exact ⟨s', bind_eq_ok.2 ⟨s₁, hs₁, hs'⟩⟩

end Except

namespace Relation

variable {σ : Type*} {step : σ → σ → Prop}

/-- **Run invariant.** What holds initially and is preserved by every step holds along every
run. -/
theorem ReflTransGen.invariant (I : σ → Prop) (hstep : ∀ s s', I s → step s s' → I s') {s s' : σ}
    (hs : I s) (h : ReflTransGen step s s') : I s' := by
  induction h with
  | refl => exact hs
  | tail _ hlast ih => exact hstep _ _ ih hlast

end Relation
