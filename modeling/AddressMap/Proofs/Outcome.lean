import AddressMap.Error
import Mathlib.Data.List.Forall2

set_option autoImplicit false

namespace AddressMap

variable {ε α β σ : Type}

theorem bind_eq_ok {x : Except ε α} {f : α → Except ε β} {b : β} :
    (x >>= f) = .ok b ↔ ∃ a, x = .ok a ∧ f a = .ok b := by
  cases x with
  | error e => simp [bind, Except.bind]
  | ok a => simp [bind, Except.bind]

theorem check_bind_eq_ok {x : Except ε Unit} {f : Unit → Except ε β} {b : β} :
    (x >>= f) = .ok b ↔ x = .ok () ∧ f () = .ok b := by
  rw [bind_eq_ok]
  constructor
  · rintro ⟨⟨⟩, hx, hf⟩
    exact ⟨hx, hf⟩
  · rintro ⟨hx, hf⟩
    exact ⟨(), hx, hf⟩

theorem map_eq_ok {x : Except ε α} {f : α → β} {b : β} :
    x.map f = .ok b ↔ ∃ a, x = .ok a ∧ f a = b := by
  cases x with
  | error e => simp [Except.map]
  | ok a => simp [Except.map]

theorem bind_eq_error {x : Except ε α} {f : α → Except ε β} {e : ε} :
    (x >>= f) = .error e ↔ x = .error e ∨ ∃ a, x = .ok a ∧ f a = .error e := by
  cases x with
  | error e' => simp [bind, Except.bind]
  | ok a => simp [bind, Except.bind]

theorem map_eq_error {x : Except ε α} {f : α → β} {e : ε} : x.map f = .error e ↔ x = .error e := by
  cases x with
  | error e' => simp [Except.map]
  | ok a => simp [Except.map]

theorem guard_eq_ok {p : Prop} [Decidable p] {e : Except ε α} {x : Except ε α} {b : α}
    (he : ∀ a, e ≠ .ok a) : (if p then e else x) = .ok b ↔ ¬p ∧ x = .ok b := by
  by_cases h : p
  · simp [h, he b]
  · simp [h]

def ran (work : ExceptT ε (StateM σ) α) (s : σ) : Except ε α × σ := work.run.run s

theorem ran_bind (work : ExceptT ε (StateM σ) α) (next : α → ExceptT ε (StateM σ) β) (s : σ) :
    ran (work >>= next) s = match ran work s with
      | (.ok a, s) => ran (next a) s
      | (.error e, s) => (.error e, s) := by
  unfold ran
  rw [ExceptT.run_bind, StateT.run_bind]
  change (fun r : Except ε α × σ => _) (work.run.run s) = _
  obtain ⟨_ | _, _⟩ := work.run.run s <;> rfl

theorem ran_bind_eq_ok {work : ExceptT ε (StateM σ) α} {next : α → ExceptT ε (StateM σ) β} {s s' : σ} {b : β} :
    ran (work >>= next) s = (.ok b, s') ↔ ∃ a t, ran work s = (.ok a, t) ∧ ran (next a) t = (.ok b, s') := by
  rw [ran_bind]
  obtain ⟨e | a, t⟩ := ran work s <;> simp

theorem ran_map_eq_ok {work : ExceptT ε (StateM σ) α} {f : α → β} {s s' : σ} {b : β} :
    ran (f <$> work) s = (.ok b, s') ↔ ∃ a, ran work s = (.ok a, s') ∧ f a = b := by
  rw [map_eq_pure_bind, ran_bind_eq_ok]
  constructor
  · rintro ⟨a, _, hwork, hf⟩
    cases hf
    exact ⟨a, hwork, rfl⟩
  · rintro ⟨a, hwork, rfl⟩
    exact ⟨a, s', hwork, rfl⟩

theorem ran_get (s : σ) : ran (ε := ε) get s = (.ok s, s) := rfl

theorem ran_set (s s' : σ) : ran (ε := ε) (set s') s = (.ok (), s') := rfl

section Success

variable {γ δ : Type}

theorem toOption_eq_some {x : Except ε α} {a : α} : x.toOption = some a ↔ x = .ok a := by
  cases x with
  | error e => simp [Except.toOption]
  | ok a => simp [Except.toOption]

theorem toOption_map (x : Except ε α) (f : α → β) : (x.map f).toOption = x.toOption.map f := by
  cases x <;> rfl

theorem toOption_bind (x : Except ε α) (f : α → Except ε β) :
    (x >>= f).toOption = x.toOption.bind fun a => (f a).toOption := by
  cases x <;> rfl

theorem toOption_ite (p : Prop) [Decidable p] (x y : Except ε α) :
    (if p then x else y).toOption = if p then x.toOption else y.toOption :=
  apply_ite Except.toOption p x y

theorem both_of_views {x : Option α} {y : Option β} {v : α → γ} {w : β → γ} (h : x.map v = y.map w) :
    (x = none ∧ y = none) ∨ ∃ a b, x = some a ∧ y = some b ∧ v a = w b := by
  cases x with
  | none => exact .inl ⟨rfl, Option.map_eq_none_iff.mp h.symm⟩
  | some a =>
    obtain ⟨b, hb, hview⟩ := Option.map_eq_some_iff.mp h.symm
    exact .inr ⟨a, b, rfl, hb, hview.symm⟩

theorem both_of_results {x : Except ε α} {y : Except ε β} {v : α → γ} {w : β → γ}
    (h : x.toOption.map v = y.toOption.map w) :
    (∃ e e', x = .error e ∧ y = .error e') ∨ ∃ a b, x = .ok a ∧ y = .ok b ∧ v a = w b := by
  rcases both_of_views h with ⟨hx, hy⟩ | ⟨a, b, hx, hy, hview⟩
  · cases x with
    | ok a => cases hx
    | error e =>
      cases y with
      | ok b => cases hy
      | error e' => exact .inl ⟨e, e', rfl, rfl⟩
  · exact .inr ⟨a, b, toOption_eq_some.mp hx, toOption_eq_some.mp hy, hview⟩

theorem map_congr_of_views {x y : Option α} {f g : α → δ} {v : α → γ} (h : x.map v = y.map v)
    (hfg : ∀ a b, v a = v b → f a = g b) : x.map f = y.map g := by
  rcases both_of_views h with ⟨rfl, rfl⟩ | ⟨a, b, rfl, rfl, hview⟩
  · rfl
  · exact congrArg some (hfg a b hview)

theorem forall₂_of_views {xs : List α} {ys : List β} {v : α → γ} {w : β → γ} (h : xs.map v = ys.map w) :
    List.Forall₂ (fun x y => v x = w y) xs ys := by
  rwa [← List.forall₂_eq_eq_eq, List.forall₂_map_left_iff, List.forall₂_map_right_iff] at h

theorem list_map_of_views {xs ys : List α} {v : α → γ} {f g : α → δ} (h : xs.map v = ys.map v)
    (hfg : ∀ x y, v x = v y → f x = g y) : xs.map f = ys.map g := by
  rw [← List.forall₂_eq_eq_eq, List.forall₂_map_left_iff, List.forall₂_map_right_iff]
  exact (forall₂_of_views h).imp hfg

/-- Two computations are alike if each result of one has a partner of the same view. -/
theorem views_eq_of_partners {x y : Except ε α} {v : α → γ}
    (forth : ∀ a, x = .ok a → ∃ b, y = .ok b ∧ v b = v a) (back : ∀ b, y = .ok b → ∃ a, x = .ok a ∧ v a = v b) :
    x.toOption.map v = y.toOption.map v := by
  cases x with
  | ok a =>
    obtain ⟨b, rfl, hb⟩ := forth a rfl
    exact congrArg some hb.symm
  | error e =>
    cases y with
    | error e' => rfl
    | ok b =>
      obtain ⟨a, ha, -⟩ := back b rfl
      cases ha

theorem bind_map_congr {x y : Option α} {f g : α → Option β} {v : α → γ} {w : β → δ}
    (h : x.map v = y.map v) (hfg : ∀ a b, v a = v b → (f a).map w = (g b).map w) :
    (x.bind f).map w = (y.bind g).map w := by
  have joined : ∀ (z : Option α) (k : α → Option β),
      (z.bind k).map w = (z.map fun a => (k a).map w).join := by
    intro z k
    cases z <;> rfl
  rw [joined, joined, map_congr_of_views h hfg]

theorem bind_map_same {f g : α → Option β} {w : β → δ} (x : Option α)
    (hfg : ∀ a, (f a).map w = (g a).map w) : (x.bind f).map w = (x.bind g).map w := by
  cases x with
  | none => rfl
  | some a => exact hfg a

end Success

namespace Outcome

def reached (o : Outcome σ) : Option σ := o.toExcept.toOption

theorem reached_done (s : σ) : (done s).reached = some s := rfl

theorem reached_map {τ : Type} (o : Outcome σ) (f : σ → τ) :
    (⟨f o.state, o.error⟩ : Outcome τ).reached = o.reached.map f := by
  obtain ⟨t, e⟩ := o
  cases e <;> rfl

theorem reached_andThen (o : Outcome σ) (f : σ → Outcome σ) :
    (o.andThen f).reached = o.reached.bind fun s => (f s).reached := by
  obtain ⟨t, e⟩ := o
  cases e <;> rfl

theorem toExcept_eq_ok {o : Outcome σ} {s : σ} : o.toExcept = .ok s ↔ o = .done s := by
  obtain ⟨t, e⟩ := o
  cases e with
  | none => simp [toExcept, done]
  | some e => simp [toExcept, done]

theorem andThen_eq_done {o : Outcome σ} {f : σ → Outcome σ} {s : σ} :
    o.andThen f = .done s ↔ ∃ t, o = .done t ∧ f t = .done s := by
  obtain ⟨t, e⟩ := o
  cases e with
  | none => simp [andThen, done]
  | some e => simp [andThen, done]

theorem reached_eq_some {o : Outcome σ} {s : σ} : o.reached = some s ↔ o = .done s :=
  toOption_eq_some.trans toExcept_eq_ok

theorem eq_done_of_error_eq_none {o : Outcome σ} (h : o.error = none) : o = .done o.state := by
  obtain ⟨t, e⟩ := o
  cases h
  rfl

end Outcome

end AddressMap
