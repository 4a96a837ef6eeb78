import Mathlib.Data.List.Forall2

/-!
# Computations that may fail

A computation that succeeds is taken apart: a sequence into its steps, a computation over a list
into those of its elements, and a fold into an invariant that every step keeps.
-/

namespace TypedRoutes
namespace Results

variable {ε ε' α β : Type}

theorem bind_eq_ok_iff
    {x : Except ε α} {f : α → Except ε β} {b : β} :
    (x >>= f) = .ok b ↔ ∃ a, x = .ok a ∧ f a = .ok b := by
  cases x with
  | error e => simp [bind, Except.bind]
  | ok a => simp [bind, Except.bind]

theorem bind_unit_eq_ok_iff
    {x : Except ε PUnit} {y : Except ε β} {b : β} :
    (x >>= fun _ => y) = .ok b ↔ x = .ok () ∧ y = .ok b := by
  rw [bind_eq_ok_iff]
  constructor
  · rintro ⟨⟨⟩, hx, hy⟩
    exact ⟨hx, hy⟩
  · rintro ⟨hx, hy⟩
    exact ⟨(), hx, hy⟩

theorem map_eq_ok_iff
    {x : Except ε α} {f : α → β} {b : β} :
    x.map f = .ok b ↔ ∃ a, x = .ok a ∧ f a = b := by
  cases x with
  | error e => simp [Except.map]
  | ok a => simp [Except.map]

theorem mapError_eq_ok_iff
    {x : Except ε α} {f : ε → ε'} {a : α} :
    x.mapError f = .ok a ↔ x = .ok a := by
  cases x with
  | error e => simp [Except.mapError]
  | ok a => simp [Except.mapError]

theorem bind_eq_error_iff
    {x : Except ε α} {f : α → Except ε β} {e : ε} :
    (x >>= f) = .error e ↔ x = .error e ∨ ∃ a, x = .ok a ∧ f a = .error e := by
  cases x with
  | error e => simp [bind, Except.bind]
  | ok a => simp [bind, Except.bind]

theorem map_eq_error_iff
    {x : Except ε α} {f : α → β} {e : ε} : x.map f = .error e ↔ x = .error e := by
  cases x with
  | error e => simp [Except.map]
  | ok a => simp [Except.map]

theorem mapError_eq_error_iff
    {x : Except ε α} {f : ε → ε'} {e : ε'} :
    x.mapError f = .error e ↔ ∃ e', x = .error e' ∧ f e' = e := by
  cases x with
  | error e => simp [Except.mapError]
  | ok a => simp [Except.mapError]

theorem mapError_bind
    (x : Except ε α) (f : α → Except ε β) (k : ε → ε') :
    (x >>= f).mapError k = x.mapError k >>= fun a => (f a).mapError k := by
  cases x <;> rfl

theorem exists_of_toOption_map
    {x : Except ε α} {f : α → β} {b : β} (h : x.toOption.map f = some b) :
    ∃ a, x = .ok a ∧ f a = b := by
  cases x with
  | error e => cases h
  | ok a => exact ⟨a, rfl, Option.some.inj h⟩

theorem bind_ok_eq_map
    (x : Except ε α) (f : α → β) : (x >>= fun a => .ok (f a)) = x.map f := by
  cases x <;> rfl

theorem toOption_bind
    (x : Except ε α) (f : α → Except ε β) :
    (x >>= f).toOption = x.toOption.bind fun a => (f a).toOption := by
  cases x <;> rfl

theorem toOption_map
    (x : Except ε α) (f : α → β) : (x.map f).toOption = x.toOption.map f := by
  cases x <;> rfl

theorem mapM_eq_ok_of_forall
    {f : α → Except ε β} {g : α → β} {xs : List α} (h : ∀ x ∈ xs, f x = .ok (g x)) :
    xs.mapM f = .ok (xs.map g) := by
  induction xs with
  | nil => rfl
  | cons x xs ih =>
      rw [List.mapM_cons, h x (by simp), ih fun y hy => h y (by simp [hy])]
      rfl

/-- A computation over a list fails with one of its elements. -/
theorem exists_of_mapM_eq_error
    {f : α → Except ε β} {xs : List α} {e : ε} (h : xs.mapM f = .error e) :
    ∃ x ∈ xs, f x = .error e := by
  induction xs with
  | nil => cases h
  | cons x xs ih =>
      rw [List.mapM_cons, bind_eq_error_iff] at h
      rcases h with hx | ⟨y, -, h⟩
      · exact ⟨x, by simp, hx⟩
      · rcases bind_eq_error_iff.mp h with hrest | ⟨ys, -, h⟩
        · obtain ⟨x', hx', hfailed⟩ := ih hrest
          exact ⟨x', by simp [hx'], hfailed⟩
        · cases h

/-- A computation over a list succeeds with the results of its elements. -/
theorem mapM_eq_ok_iff
    {f : α → Except ε β} {xs : List α} {ys : List β} :
    xs.mapM f = .ok ys ↔ List.Forall₂ (fun x y => f x = .ok y) xs ys := by
  induction xs generalizing ys with
  | nil =>
      cases ys with
      | nil => simp [pure, Except.pure]
      | cons y ys => simp [pure, Except.pure]
  | cons x xs ih =>
      rw [List.mapM_cons, bind_eq_ok_iff]
      constructor
      · rintro ⟨y, hy, h⟩
        obtain ⟨ys', hys, h⟩ := bind_eq_ok_iff.mp h
        obtain rfl : y :: ys' = ys := Except.ok.inj h
        exact .cons hy (ih.mp hys)
      · intro h
        cases h with
        | cons hy hys => exact ⟨_, hy, bind_eq_ok_iff.mpr ⟨_, ih.mpr hys, rfl⟩⟩

theorem exists_mapM_eq_ok_iff
    {f : α → Except ε β} {xs : List α} :
    (∃ ys, xs.mapM f = .ok ys) ↔ ∀ x ∈ xs, ∃ y, f x = .ok y := by
  simp only [mapM_eq_ok_iff]
  induction xs with
  | nil => simp
  | cons x xs ih =>
      rw [List.forall_mem_cons, ← ih]
      constructor
      · rintro ⟨_, h⟩
        cases h with
        | cons hy hys => exact ⟨⟨_, hy⟩, _, hys⟩
      · rintro ⟨⟨y, hy⟩, ys, hys⟩
        exact ⟨y :: ys, .cons hy hys⟩

theorem exists_left_of_forall₂
    {R : α → β → Prop} {xs : List α} {ys : List β} (h : List.Forall₂ R xs ys)
    {y : β} (hy : y ∈ ys) : ∃ x ∈ xs, R x y := by
  induction h with
  | nil => cases hy
  | @cons x y' xs ys hxy _ ih =>
      rcases List.mem_cons.mp hy with rfl | hy
      · exact ⟨x, by simp, hxy⟩
      · obtain ⟨x', hx', hR⟩ := ih hy
        exact ⟨x', by simp [hx'], hR⟩

theorem exists_forall₂_of_imp
    {γ : Type} {R : α → β → Prop} {S : α → γ → Prop} {xs : List α} {ys : List β}
    (h : List.Forall₂ R xs ys) (himp : ∀ x y, R x y → ∃ z, S x z) :
    ∃ zs, List.Forall₂ S xs zs := by
  induction h with
  | nil => exact ⟨[], .nil⟩
  | @cons x y _ _ hxy _ ih =>
      obtain ⟨z, hz⟩ := himp x y hxy
      obtain ⟨zs, hzs⟩ := ih
      exact ⟨z :: zs, .cons hz hzs⟩

/-- A check over a list succeeds if it does for every element. -/
theorem forM_eq_ok_iff
    {f : α → Except ε PUnit} {xs : List α} : xs.forM f = .ok () ↔ ∀ x ∈ xs, f x = .ok () := by
  induction xs with
  | nil => simp [pure, Except.pure]
  | cons x rest ih =>
      rw [List.forM, bind_unit_eq_ok_iff, List.forall_mem_cons, ← ih]

/-- A check over a list fails with the first element for which it does. -/
theorem exists_of_forM_eq_error
    {f : α → Except ε PUnit} {xs : List α} {e : ε} (h : xs.forM f = .error e) :
    ∃ (i : Nat) (x : α), xs[i]? = some x ∧ f x = .error e ∧
      ∀ j < i, ∀ y, xs[j]? = some y → f y = .ok () := by
  induction xs with
  | nil => cases h
  | cons x rest ih =>
      rw [List.forM, bind_eq_error_iff] at h
      rcases h with hx | ⟨⟨⟩, hx, hrest⟩
      · exact ⟨0, x, rfl, hx, fun j hj => absurd hj (Nat.not_lt_zero j)⟩
      · obtain ⟨i, y, hy, hfailed, hbefore⟩ := ih hrest
        refine ⟨i + 1, y, hy, hfailed, fun j hj z hz => ?_⟩
        cases j with
        | zero =>
            obtain rfl : x = z := Option.some.inj hz
            exact hx
        | succ j => exact hbefore j (Nat.lt_of_succ_lt_succ hj) z hz

/-- The first element for which a check fails decides how the check over a list fails. -/
theorem forM_eq_error_of_first
    {f : α → Except ε PUnit} {xs : List α} {i : Nat} {x : α} {e : ε} (hx : xs[i]? = some x)
    (h : f x = .error e) (hbefore : ∀ j < i, ∀ y, xs[j]? = some y → f y = .ok ()) :
    xs.forM f = .error e := by
  induction xs generalizing i with
  | nil => cases hx
  | cons y rest ih =>
      rw [List.forM, bind_eq_error_iff]
      cases i with
      | zero =>
          obtain rfl : y = x := Option.some.inj hx
          exact .inl h
      | succ i =>
          refine .inr ⟨(), hbefore 0 (by omega) y rfl, ih hx fun j hj z hz => ?_⟩
          exact hbefore (j + 1) (by omega) z hz

theorem forM_flatMap
    {f : β → Except ε PUnit} {g : α → List β} (xs : List α) :
    (xs.flatMap g).forM f = xs.forM fun x => (g x).forM f := by
  induction xs with
  | nil => rfl
  | cons x rest ih =>
      simp only [List.forM_eq_forM] at ih ⊢
      rw [List.flatMap_cons, List.forM_append, ih, List.forM_cons]

/-- Checks over two lists fail alike if they do for the elements. -/
theorem mapError_forM_congr
    {R : α → β → Prop} {f : α → Except ε Unit} {g : β → Except ε Unit} {k : ε → ε'}
    {xs : List α} {ys : List β} (h : List.Forall₂ R xs ys)
    (hk : ∀ x y, R x y → (f x).mapError k = (g y).mapError k) :
    (xs.forM f).mapError k = (ys.forM g).mapError k := by
  induction h with
  | nil => rfl
  | cons hxy _ ih => rw [List.forM, List.forM, mapError_bind, mapError_bind, hk _ _ hxy, ih]

/-- Two folds are the same if their steps are, wherever what every step keeps is so. -/
theorem foldlM_congr_of_invariant
    {f g : β → α → Except ε β} {P : β → Prop} {xs : List α}
    (h : ∀ b, P b → ∀ x ∈ xs, f b x = g b x ∧ ∀ b', f b x = .ok b' → P b') {start : β}
    (hstart : P start) : xs.foldlM f start = xs.foldlM g start := by
  induction xs generalizing start with
  | nil => rfl
  | cons x xs ih =>
      obtain ⟨hsame, hkept⟩ := h start hstart x (by simp)
      rw [List.foldlM_cons, List.foldlM_cons, ← hsame]
      cases hstep : f start x with
      | error e => rfl
      | ok next => exact ih (fun b hb y hy => h b hb y (by simp [hy])) (hkept next hstep)

theorem foldlM_congr
    {f g : β → α → Except ε β} {xs : List α} (h : ∀ b, ∀ x ∈ xs, f b x = g b x) (start : β) :
    xs.foldlM f start = xs.foldlM g start :=
  foldlM_congr_of_invariant (P := fun _ => True) (fun b _ x hx => ⟨h b x hx, fun _ _ => trivial⟩)
    trivial

theorem foldlM_eq_of_fixed
    {f : β → α → Except ε β} {xs : List α} {b : β} (h : ∀ x ∈ xs, f b x = .ok b) :
    xs.foldlM f b = .ok b := by
  induction xs with
  | nil => rfl
  | cons x xs ih =>
      rw [List.foldlM_cons, h x (by simp)]
      exact ih fun y hy => h y (by simp [hy])

/-- A fold fails with one of its steps. -/
theorem exists_of_foldlM_eq_error
    {f : β → α → Except ε β} {xs : List α} {start : β} {e : ε}
    (h : xs.foldlM f start = .error e) : ∃ b, ∃ x ∈ xs, f b x = .error e := by
  induction xs generalizing start with
  | nil => cases h
  | cons x xs ih =>
      rw [List.foldlM_cons, bind_eq_error_iff] at h
      rcases h with hx | ⟨next, -, hrest⟩
      · exact ⟨start, x, by simp, hx⟩
      · obtain ⟨b, y, hy, hfailed⟩ := ih hrest
        exact ⟨b, y, by simp [hy], hfailed⟩

/-- Whether and how a fold fails is told by a check over its list, if that is so for its steps. -/
theorem foldlM_map_unit
    {f : β → α → Except ε β} {check : α → Except ε PUnit} {xs : List α}
    (h : ∀ b, ∀ x ∈ xs, (f b x).map (fun _ => ()) = check x) (start : β) :
    (xs.foldlM f start).map (fun _ => ()) = xs.forM check := by
  induction xs generalizing start with
  | nil => rfl
  | cons x xs ih =>
      rw [List.foldlM_cons, List.forM, ← h start x (by simp)]
      cases f start x with
      | error e => rfl
      | ok next => exact ih (fun b y hy => h b y (by simp [hy])) next

/-- A fold whose steps never fail has a result. -/
theorem exists_foldlM_eq_ok
    {f : β → α → Except ε β} {xs : List α} (h : ∀ b, ∀ x ∈ xs, ∃ b', f b x = .ok b') (start : β) :
    ∃ result, xs.foldlM f start = .ok result := by
  induction xs generalizing start with
  | nil => exact ⟨start, rfl⟩
  | cons x xs ih =>
      obtain ⟨next, hnext⟩ := h start x (by simp)
      rw [List.foldlM_cons, hnext]
      exact ih (fun b y hy => h b y (by simp [hy])) next

/-- What every step of a fold keeps holds of its result. -/
theorem foldlM_invariant
    {f : β → α → Except ε β} {P : β → Prop} {xs : List α} {start result : β}
    (hstep : ∀ b x b', x ∈ xs → P b → f b x = .ok b' → P b')
    (hstart : P start) (h : xs.foldlM f start = .ok result) : P result := by
  induction xs generalizing start with
  | nil =>
      obtain rfl : start = result := Except.ok.inj h
      exact hstart
  | cons x xs ih =>
      rw [List.foldlM_cons, bind_eq_ok_iff] at h
      obtain ⟨next, hnext, hrest⟩ := h
      exact ih (fun b y b' hy => hstep b y b' (by simp [hy]))
        (hstep start x next (by simp) hstart hnext) hrest

end Results
end TypedRoutes
