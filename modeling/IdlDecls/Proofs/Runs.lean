import Mathlib.Data.List.Forall2

/-!
# Runs of steps that may fail

The phases of an integration are `do` blocks and folds over `Except`. This file takes such runs
apart: a block that ends well has ended every step well, a fold keeps what every step keeps
(`foldlM_keeps`), and a fold that is only looked at through a view is the run of the steps that
the view can see (`viewed_foldlM`), so that two folds that do the same in view end in the same view
(`view_eq_of_foldlM`).
-/

namespace IdlDecls

variable {ε δ α β σ τ : Type}

/-! ## Single steps -/

instance decidableEqExcept [DecidableEq ε] [DecidableEq α] : DecidableEq (Except ε α)
  | .ok a, .ok b => decidable_of_iff (a = b) (by simp)
  | .error e, .error d => decidable_of_iff (e = d) (by simp)
  | .ok _, .error _ => isFalse nofun
  | .error _, .ok _ => isFalse nofun

theorem bind_eq_ok_iff {x : Except ε α} {f : α → Except ε β} {b : β} :
    (x >>= f) = .ok b ↔ ∃ a, x = .ok a ∧ f a = .ok b := by
  cases x with
  | error e => simp [bind, Except.bind]
  | ok a => simp [bind, Except.bind]

theorem map_eq_ok_iff {x : Except ε α} {f : α → β} {b : β} :
    f <$> x = .ok b ↔ ∃ a, x = .ok a ∧ f a = b := by
  cases x with
  | error e => simp [Functor.map, Except.map]
  | ok a => simp [Functor.map, Except.map]

theorem pure_eq_ok_iff {a b : α} : (pure a : Except ε α) = .ok b ↔ a = b := by
  simp [pure, Except.pure]

theorem mapError_eq_ok_iff {x : Except ε α} {f : ε → δ} {b : α} :
    x.mapError f = .ok b ↔ x = .ok b := by
  cases x <;> simp [Except.mapError]

theorem mapError_bind (x : Except ε α) (f : α → Except ε β) (g : ε → δ) :
    (x >>= f).mapError g = x.mapError g >>= fun a => (f a).mapError g := by
  cases x <;> rfl

/-! ## Item by item -/

/-- A list goes to the list that has for each item what becomes of it. -/
theorem mapM_eq_ok_iff {f : α → Except ε β} :
    ∀ {l : List α} {m : List β}, l.mapM f = .ok m ↔ List.Forall₂ (fun a b => f a = .ok b) l m
  | [], m => by rw [List.mapM_nil, pure_eq_ok_iff, List.forall₂_nil_left_iff, eq_comm]
  | a :: l, m => by
    rw [List.mapM_cons, List.forall₂_cons_left_iff, bind_eq_ok_iff]
    simp only [bind_eq_ok_iff, pure_eq_ok_iff, mapM_eq_ok_iff, exists_and_left, @eq_comm _ m]

/-- What stands in the second of two related lists is related to something in the first. -/
theorem exists_of_forall₂ {R : α → β → Prop} {l : List α} {m : List β} (h : List.Forall₂ R l m) :
    ∀ b ∈ m, ∃ a ∈ l, R a b := by
  induction h with
  | nil => nofun
  | cons hab _ ih =>
    refine List.forall_mem_cons.2 ⟨⟨_, List.mem_cons_self .., hab⟩, fun c hc => ?_⟩
    obtain ⟨d, hd, hdc⟩ := ih c hc
    exact ⟨d, List.mem_cons_of_mem _ hd, hdc⟩

/-- If each item is related to one other only, a list is related to one other only. -/
theorem forall₂_iff_eq_map {R : α → β → Prop} {f : α → β} (hR : ∀ a b, R a b ↔ b = f a) {l : List α}
    {m : List β} : List.Forall₂ R l m ↔ m = l.map f := by
  have hrelation : R = fun a b => f a = b := by
    funext a b
    rw [hR, @eq_comm _ b]
  rw [hrelation, ← List.forall₂_map_left_iff, List.forall₂_eq_eq_eq, eq_comm]

/-! ## Folds -/

theorem foldlM_cons_eq_ok_iff {step : σ → α → Except ε σ} {a : α} {l : List α} {s t : σ} :
    (a :: l).foldlM step s = .ok t ↔ ∃ r, step s a = .ok r ∧ l.foldlM step r = .ok t := by
  rw [List.foldlM_cons, bind_eq_ok_iff]

theorem foldlM_nil_eq_ok_iff {step : σ → α → Except ε σ} {s t : σ} :
    ([] : List α).foldlM step s = .ok t ↔ s = t := by
  rw [List.foldlM_nil, pure_eq_ok_iff]

/-- What every step on an item of the list keeps, the whole fold keeps. -/
theorem foldlM_keeps {step : σ → α → Except ε σ} {P : σ → Prop} :
    ∀ {l : List α} {s t : σ}, (∀ a ∈ l, ∀ s t, P s → step s a = .ok t → P t) →
      P s → l.foldlM step s = .ok t → P t
  | [], s, t, _, hs, h => by rw [foldlM_nil_eq_ok_iff] at h; exact h ▸ hs
  | a :: l, s, t, hstep, hs, h => by
    obtain ⟨r, hr, ht⟩ := foldlM_cons_eq_ok_iff.1 h
    have hPr := hstep a (by simp) s r hs hr
    exact foldlM_keeps (fun b hb => hstep b (by simp [hb])) hPr ht

/-- If every step adds what its item gives to what is known of the state, a fold adds what some item
of the list gives. -/
theorem foldlM_gathers {step : σ → α → Except ε σ} {P : (τ → Prop) → σ → Prop} {G : α → τ → Prop}
    (hstep : ∀ a s t known, P known s → step s a = .ok t → P (fun x => known x ∨ G a x) t) :
    ∀ {l : List α} {s t : σ} {known : τ → Prop}, P known s → l.foldlM step s = .ok t →
      P (fun x => known x ∨ ∃ a ∈ l, G a x) t
  | [], s, t, known, hs, h => by
    rw [foldlM_nil_eq_ok_iff] at h
    simpa [h] using hs
  | a :: l, s, t, known, hs, h => by
    obtain ⟨r, hr, ht⟩ := foldlM_cons_eq_ok_iff.1 h
    have ih := foldlM_gathers hstep (hstep a s r known hs hr) ht
    simpa [or_assoc] using ih

/-- If every step puts what its item comes with behind what the state has collected, a fold puts there
what all items come with, in their order. -/
theorem foldlM_collects {step : σ → α → Except ε σ} {P : List τ → σ → Prop} {G : α → List τ}
    (hstep : ∀ a s t collected, P collected s → step s a = .ok t → P (collected ++ G a) t) :
    ∀ {l : List α} {s t : σ} {collected : List τ}, P collected s → l.foldlM step s = .ok t →
      P (collected ++ l.flatMap G) t
  | [], s, t, collected, hs, h => by
    rw [foldlM_nil_eq_ok_iff] at h
    simpa [h] using hs
  | a :: l, s, t, collected, hs, h => by
    obtain ⟨r, hr, ht⟩ := foldlM_cons_eq_ok_iff.1 h
    have ih := foldlM_collects hstep (hstep a s r collected hs hr) ht
    simpa [List.append_assoc] using ih

/-- Steps that cannot fail make a fold that cannot. -/
theorem foldlM_total {step : σ → α → Except ε σ} (hstep : ∀ s a, ∃ t, step s a = .ok t) :
    ∀ (l : List α) (s : σ), ∃ t, l.foldlM step s = .ok t
  | [], s => ⟨s, rfl⟩
  | a :: l, s => by
    obtain ⟨r, hr⟩ := hstep s a
    obtain ⟨t, ht⟩ := foldlM_total hstep l r
    exact ⟨t, foldlM_cons_eq_ok_iff.2 ⟨r, hr, ht⟩⟩

/-- A fold whose steps end as those of another do ends as the other does. -/
theorem foldlM_mono {step step' : σ → α → Except ε σ}
    (hstep : ∀ s a t, step s a = .ok t → step' s a = .ok t) :
    ∀ {l : List α} {s t : σ}, l.foldlM step s = .ok t → l.foldlM step' s = .ok t
  | [], _, _, h => h
  | a :: l, s, t, h => by
    obtain ⟨r, hr, ht⟩ := foldlM_cons_eq_ok_iff.1 h
    exact foldlM_cons_eq_ok_iff.2 ⟨r, hstep s a r hr, foldlM_mono hstep ht⟩

/-! ## Folds through a view -/

/-- A run of a relation over a list: each item leads from one state to the next. -/
def Run (R : α → τ → τ → Prop) : List α → τ → τ → Prop
  | [], v, w => w = v
  | a :: l, v, w => ∃ u, R a v u ∧ Run R l u w

/-- What a fold ends in is what the items lead to one after the other. -/
theorem foldlM_eq_ok_iff_run {step : τ → α → Except ε τ} {R : α → τ → τ → Prop}
    (hR : ∀ a v w, step v a = .ok w ↔ R a v w) :
    ∀ {l : List α} {v w : τ}, l.foldlM step v = .ok w ↔ Run R l v w
  | [], _, _ => foldlM_nil_eq_ok_iff.trans eq_comm
  | a :: l, v, w => by
    rw [foldlM_cons_eq_ok_iff, Run]
    exact exists_congr fun u => and_congr (hR a v u) (foldlM_eq_ok_iff_run hR)

/-- A relation in which a state has one successor for each item runs to one end. -/
theorem Run.unique {R : α → τ → τ → Prop} (hR : ∀ a v w w', R a v w → R a v w' → w = w') :
    ∀ {l : List α} {v w w' : τ}, Run R l v w → Run R l v w' → w = w'
  | [], _, _, _, h, h' => h.trans h'.symm
  | a :: _, v, _, _, ⟨u, hu, h⟩, ⟨u', hu', h'⟩ => by
    cases hR a v u u' hu hu'
    exact Run.unique hR h h'

/-- If the items that `seen` leaves out do not change the view of a state, and each of the others
changes it along `R`, a fold changes the view along the run of the items that `seen` selects. -/
theorem viewed_foldlM {step : σ → α → Except ε σ} {view : σ → τ} {seen : α → Bool}
    {R : α → τ → τ → Prop}
    (hskip : ∀ s a t, seen a = false → step s a = .ok t → view t = view s)
    (hseen : ∀ s a t, seen a = true → step s a = .ok t → R a (view s) (view t)) :
    ∀ {l : List α} {s t : σ}, l.foldlM step s = .ok t → Run R (l.filter seen) (view s) (view t)
  | [], s, t, h => by rw [foldlM_nil_eq_ok_iff] at h; rw [h]; rfl
  | a :: l, s, t, h => by
    obtain ⟨r, hr, ht⟩ := foldlM_cons_eq_ok_iff.1 h
    have ih := viewed_foldlM hskip hseen ht
    cases ha : seen a with
    | false => rw [List.filter_cons_of_neg (by simp [ha]), ← hskip s a r ha hr]; exact ih
    | true => rw [List.filter_cons_of_pos ha]; exact ⟨_, hseen s a r ha hr, ih⟩

/-! ## Two runs -/

/-- Folds over lists that are related item by item keep what related steps keep. -/
theorem foldlM_related {step step' : σ → α → Except ε σ} {P : σ → σ → Prop} {Q : α → α → Prop}
    (hstep : ∀ a a' s s' t t', Q a a' → P s s' → step s a = .ok t → step' s' a' = .ok t' → P t t')
    {l l' : List α} (hl : List.Forall₂ Q l l') {s s' t t' : σ} (hs : P s s')
    (h : l.foldlM step s = .ok t) (h' : l'.foldlM step' s' = .ok t') : P t t' := by
  induction hl generalizing s s' with
  | nil =>
    cases foldlM_nil_eq_ok_iff.1 h
    cases foldlM_nil_eq_ok_iff.1 h'
    exact hs
  | cons ha _ ih =>
    obtain ⟨r, hr, ht⟩ := foldlM_cons_eq_ok_iff.1 h
    obtain ⟨r', hr', ht'⟩ := foldlM_cons_eq_ok_iff.1 h'
    exact ih (hstep _ _ s s' r r' ha hs hr hr') ht ht'

/-- **What a view cannot see does not reach it**: if the items that `seen` leaves out do not change
the view, and the view after each of the others follows from the view before, two folds that agree
on the seen items and start in the same view end in the same view. -/
theorem view_eq_of_foldlM (view : σ → τ) {step : σ → α → Except ε σ} {seen : α → Bool}
    (hskip : ∀ s a t, seen a = false → step s a = .ok t → view t = view s)
    (hseen : ∀ a s s' t t', seen a = true → view s = view s' → step s a = .ok t →
      step s' a = .ok t' → view t = view t')
    {l l' : List α} (hl : l.filter seen = l'.filter seen) {s s' t t' : σ} (hs : view s = view s')
    (h : l.foldlM step s = .ok t) (h' : l'.foldlM step s' = .ok t') : view t = view t' := by
  let R : α → τ → τ → Prop := fun a v w =>
    ∃ s t, seen a = true ∧ view s = v ∧ view t = w ∧ step s a = .ok t
  have hR : ∀ s a t, seen a = true → step s a = .ok t → R a (view s) (view t) :=
    fun s _ t ha ht => ⟨s, t, ha, rfl, rfl, ht⟩
  have hrun : Run R (l.filter seen) (view s) (view t) := viewed_foldlM hskip hR h
  have hrun' : Run R (l'.filter seen) (view s') (view t') := viewed_foldlM hskip hR h'
  rw [← hl, ← hs] at hrun'
  refine Run.unique ?_ hrun hrun'
  rintro a v w w' ⟨r, u, ha, rfl, rfl, hu⟩ ⟨r', u', -, hv, rfl, hu'⟩
  exact hseen a r r' u u' ha hv.symm hu hu'

end IdlDecls
