import Mathlib.Data.Option.Basic

/-!
# Checked computations

Validation code is a sequence of tests with early returns. `ensure` stops a
computation that may fail, `require` does so with a reason. The equivalences
below peel a successful run apart, one test at a time.
-/

namespace IndexChain.Core

/-- Continue when a condition holds. -/
def ensure (b : Bool) : Option Unit :=
  if b then some () else none

/-- Continue when a condition holds, fail with a reason otherwise. -/
def require {ε : Type} (b : Bool) (reason : ε) : Except ε Unit :=
  if b then .ok () else .error reason

theorem ensure_bind_eq_some {α : Type} {b : Bool} {k : Unit → Option α} {x : α} :
    (ensure b >>= k) = some x ↔ b = true ∧ k () = some x := by
  cases b
  · simp [ensure]
  · simp [ensure]

theorem require_eq_ok {ε : Type} {b : Bool} {reason : ε} {u : Unit} :
    require b reason = .ok u ↔ b = true := by
  cases b
  · simp [require]
  · simp [require]

theorem except_ok_bind {ε α β : Type} (a : α) (k : α → Except ε β) :
    ((.ok a : Except ε α) >>= k) = k a := rfl

theorem except_bind_eq_ok {ε α β : Type} {e : Except ε α} {k : α → Except ε β} {y : β} :
    (e >>= k) = .ok y ↔ ∃ x, e = .ok x ∧ k x = .ok y := by
  cases e with
  | error s => simp [bind, Except.bind]
  | ok x => simp [bind, Except.bind]

/-- What follows matters only for the results there are. -/
theorem except_bind_congr {ε α β : Type} {e : Except ε α} {k k' : α → Except ε β}
    (h : ∀ a, e = .ok a → k a = k' a) : (e >>= k) = (e >>= k') := by
  cases e with
  | error err => rfl
  | ok a => exact h a rfl

theorem except_bind_eq_error {ε α β : Type} {e : Except ε α} {k : α → Except ε β} {err : ε} :
    (e >>= k) = .error err ↔ e = .error err ∨ ∃ a, e = .ok a ∧ k a = .error err := by
  cases e with
  | error err' => simp [bind, Except.bind]
  | ok a => simp [bind, Except.bind]

theorem except_bind_map {ε α β γ : Type} {f : β → γ} {e : Except ε α} {k : α → Except ε β} :
    (e >>= k).map f = e >>= fun a => (k a).map f := by
  cases e <;> rfl

theorem except_map_bind {ε α β γ : Type} {f : α → β} {e : Except ε α} {k : β → Except ε γ} :
    e.map f >>= k = e >>= fun a => k (f a) := by
  cases e <;> rfl

theorem mapError_eq_ok {ε ε' α : Type} {f : ε → ε'} {e : Except ε α} {a : α} :
    e.mapError f = .ok a ↔ e = .ok a := by
  cases e with
  | error err => simp [Except.mapError]
  | ok b => simp [Except.mapError]

theorem unit_bind_eq_ok {ε α : Type} {e : Except ε Unit} {k : Unit → Except ε α} {x : α} :
    (e >>= k) = .ok x ↔ e = .ok () ∧ k () = .ok x := by
  rw [except_bind_eq_ok]
  constructor
  · rintro ⟨u, hu, hk⟩
    exact ⟨hu, hk⟩
  · rintro ⟨hu, hk⟩
    exact ⟨(), hu, hk⟩

theorem require_bind_eq_ok {ε α : Type} {b : Bool} {reason : ε} {k : Unit → Except ε α} {x : α} :
    (require b reason >>= k) = .ok x ↔ b = true ∧ k () = .ok x := by
  rw [unit_bind_eq_ok, require_eq_ok]

/-- A computation does not end in a failure of a given kind. -/
def Avoids {ε α : Type} (bad : ε → Prop) (e : Except ε α) : Prop :=
  ∀ err, e = .error err → ¬ bad err

namespace Avoids

variable {ε α β : Type} {bad : ε → Prop}

theorem ok (a : α) : Avoids bad (.ok a) := by
  intro err h
  cases h

theorem error {err : ε} (h : ¬ bad err) : Avoids bad (.error err : Except ε α) := by
  intro err' heq
  cases heq
  exact h

theorem require {b : Bool} {reason : ε} (h : ¬ bad reason) : Avoids bad (require b reason) := by
  cases b
  · exact error h
  · exact ok ()

theorem bind {e : Except ε α} {k : α → Except ε β} (he : Avoids bad e)
    (hk : ∀ a, e = .ok a → Avoids bad (k a)) : Avoids bad (e >>= k) := by
  cases e with
  | error err => exact error (he err rfl)
  | ok a => exact hk a rfl

/-- A test that fails for another reason, and what follows when it holds. -/
theorem require_bind {b : Bool} {reason : ε} {k : Unit → Except ε β} (h : ¬ bad reason)
    (hk : b = true → Avoids bad (k ())) : Avoids bad (Core.require b reason >>= k) :=
  bind (require h) fun _ hb => hk (require_eq_ok.1 hb)

theorem bind_iff {e : Except ε α} {k : α → Except ε β} :
    Avoids bad (e >>= k) ↔ Avoids bad e ∧ ∀ a, e = .ok a → Avoids bad (k a) := by
  refine ⟨fun h => ?_, fun h => bind h.1 h.2⟩
  cases e with
  | error err => exact ⟨error (h err rfl), fun a ha => by cases ha⟩
  | ok a =>
    refine ⟨ok a, fun a' ha => ?_⟩
    cases ha
    exact h

theorem require_bind_iff {b : Bool} {reason : ε} {k : Unit → Except ε β} (h : ¬ bad reason) :
    Avoids bad (Core.require b reason >>= k) ↔ (b = true → Avoids bad (k ())) := by
  refine ⟨fun hk hb => ?_, require_bind h⟩
  rw [hb] at hk
  exact hk

theorem mapM {f : α → Except ε β} {l : List α} (h : ∀ a ∈ l, Avoids bad (f a)) :
    Avoids bad (l.mapM f) := by
  induction l with
  | nil => exact ok []
  | cons a l ih =>
    rw [List.mapM_cons]
    refine bind (h a List.mem_cons_self) fun b _ => ?_
    exact bind (ih fun a' ha' => h a' (List.mem_cons_of_mem a ha')) fun bs _ => ok _

end Avoids

/-- A list of computations that all succeed. -/
theorem mapM_eq_ok {ε α β : Type} {f : α → Except ε β} {g : α → β} {l : List α} {bs : List β}
    (hfg : ∀ a ∈ l, ∀ b, f a = .ok b → b = g a) (h : l.mapM f = .ok bs) : bs = l.map g := by
  induction l generalizing bs with
  | nil =>
    cases h
    rfl
  | cons a l ih =>
    rw [List.mapM_cons] at h
    obtain ⟨b, hb, h⟩ := except_bind_eq_ok.1 h
    obtain ⟨bs', hbs, h⟩ := except_bind_eq_ok.1 h
    cases h
    rw [List.map_cons, hfg a List.mem_cons_self b hb,
      ih (fun a' ha' => hfg a' (List.mem_cons_of_mem a ha')) hbs]

/-! ## Reads that exist -/

/-- A computation ends with a result. -/
def Completes {ε α : Type} (e : Except ε α) : Prop := ∃ a, e = .ok a

namespace Completes

variable {ε α β : Type}

@[simp] theorem ok (a : α) : Completes (.ok a : Except ε α) := ⟨a, rfl⟩

@[simp] theorem pure (a : α) : Completes (Pure.pure a : Except ε α) := ⟨a, rfl⟩

@[simp] theorem not_error (err : ε) : ¬ Completes (.error err : Except ε α) := by
  rintro ⟨a, ha⟩
  cases ha

theorem bind_iff {e : Except ε α} {k : α → Except ε β} :
    Completes (e >>= k) ↔ Completes e ∧ ∀ a, e = .ok a → Completes (k a) := by
  cases e with
  | error err => exact ⟨fun h => absurd h (not_error err), fun h => absurd h.1 (not_error err)⟩
  | ok a =>
    refine ⟨fun h => ⟨ok a, fun b hb => ?_⟩, fun h => h.2 a rfl⟩
    cases hb
    exact h

/-- When what follows completes or not whatever the result. -/
theorem bind_of {e : Except ε α} {k : α → Except ε β} {q : Prop}
    (hk : ∀ a, e = .ok a → (Completes (k a) ↔ q)) : Completes (e >>= k) ↔ Completes e ∧ q := by
  rw [bind_iff]
  refine and_congr_right fun he => ?_
  obtain ⟨a, ha⟩ := he
  exact ⟨fun h => (hk a ha).1 (h a ha), fun hq a' ha' => (hk a' ha').2 hq⟩

theorem ite_iff {c : Prop} [Decidable c] {e e' : Except ε α} :
    Completes (if c then e else e') ↔ (c → Completes e) ∧ (¬ c → Completes e') := by
  split
  · next hc => simp [hc]
  · next hc => simp [hc]

theorem map_iff {f : α → β} {e : Except ε α} : Completes (f <$> e) ↔ Completes e := by
  cases e with
  | error err => exact ⟨fun h => absurd h (not_error err), fun h => absurd h (not_error err)⟩
  | ok a => exact ⟨fun _ => ok a, fun _ => ok (f a)⟩

theorem mapM_iff {f : α → Except ε β} {l : List α} :
    Completes (l.mapM f) ↔ ∀ a ∈ l, Completes (f a) := by
  induction l with
  | nil => simp
  | cons a l ih =>
    rw [List.mapM_cons, List.forall_mem_cons]
    refine bind_of fun b _ => ?_
    rw [bind_iff, ih]
    exact ⟨fun h => h.1, fun h => ⟨h, fun bs _ => pure _⟩⟩

end Completes

/-- The entry at an index that nothing has checked. -/
def entry {ε α : Type} (l : List α) (i : Nat) (fault : ε) : Except ε α :=
  match l[i]? with
  | some a => .ok a
  | none => .error fault

theorem entry_eq_ok {ε α : Type} {l : List α} {i : Nat} {fault : ε} {a : α} :
    entry l i fault = .ok a ↔ l[i]? = some a := by
  rw [entry]
  cases l[i]? with
  | none => simp
  | some b => simp

@[simp] theorem completes_entry {ε α : Type} {l : List α} {i : Nat} {fault : ε} :
    Completes (entry l i fault) ↔ i < l.length := by
  simp only [Completes, entry_eq_ok]
  constructor
  · rintro ⟨a, ha⟩
    exact (List.getElem?_eq_some_iff.1 ha).1
  · exact fun h => ⟨l[i], List.getElem?_eq_getElem h⟩

theorem eq_ok_of_isOk {ε : Type} {e : Except ε Unit} (h : e.isOk = true) : e = .ok () := by
  cases e with
  | error s => cases h
  | ok u => rfl

theorem eq_ok_of_toOption {ε α : Type} {e : Except ε α} {a : α} (h : e.toOption = some a) :
    e = .ok a := by
  cases e with
  | error err => cases h
  | ok b => rw [Option.some.inj h]

end IndexChain.Core
