/-
Past-time operators on histories.

A history is the list of the events of a run, oldest first. A step of it is
an event together with the history before it, so what the machine's state was
at a step is a function of that history. `Once`, `Always` and `Since` speak of
the steps of a history; each has a rule for one more event (`once_snoc`,
`always_snoc`, `since_snoc`), which is what an induction over runs uses.
`always_iff` packages one: a condition on steps that is exactly what keeps a
property of the states. `collect` lists what the steps yield.
-/
import Mathlib.Data.List.Induction
import Mathlib.Data.Set.Insert

namespace Past

variable {α : Type*} {P P' : List α → α → Prop} {Q : α → Prop}

/-- `P` held at some step. -/
def Once (P : List α → α → Prop) (H : List α) : Prop :=
  ∃ H₁ a H₂, H = H₁ ++ a :: H₂ ∧ P H₁ a

/-- `P` held at every step. -/
def Always (P : List α → α → Prop) (H : List α) : Prop :=
  ∀ H₁ a H₂, H = H₁ ++ a :: H₂ → P H₁ a

/-- `P` held at some step, and no event after it satisfies `Q`. -/
def Since (P : List α → α → Prop) (Q : α → Prop) (H : List α) : Prop :=
  ∃ H₁ a H₂, H = H₁ ++ a :: H₂ ∧ P H₁ a ∧ ∀ b ∈ H₂, ¬ Q b

/-- A step of a history with one more event is the last one or a step of the
history before. -/
theorem snoc_eq_split {H : List α} {a : α} {H₁ b H₂} :
    H ++ [a] = H₁ ++ b :: H₂ ↔
      (H₁ = H ∧ b = a ∧ H₂ = []) ∨ ∃ H₃, H₂ = H₃ ++ [a] ∧ H = H₁ ++ b :: H₃ := by
  constructor
  · intro h
    rcases List.eq_nil_or_concat H₂ with rfl | ⟨H₃, c, rfl⟩
    · obtain ⟨rfl, hb⟩ := List.append_inj' h rfl
      exact .inl ⟨rfl, by simpa using hb.symm, rfl⟩
    · rw [List.concat_eq_append, ← List.cons_append, ← List.append_assoc] at h
      obtain ⟨rfl, hc⟩ := List.append_inj' h rfl
      have hac : a = c := by simpa using hc
      exact .inr ⟨H₃, by rw [List.concat_eq_append, hac], rfl⟩
  · intro h
    rcases h with ⟨rfl, rfl, rfl⟩ | ⟨H₃, rfl, rfl⟩
    · rfl
    · simp

@[simp] theorem not_once_nil : ¬ Once P [] := by rintro ⟨H₁, a, H₂, h, -⟩; simp at h

theorem once_snoc {H : List α} {a : α} : Once P (H ++ [a]) ↔ Once P H ∨ P H a := by
  constructor
  · intro h
    obtain ⟨H₁, b, H₂, h, hp⟩ := h
    rcases snoc_eq_split.mp h with ⟨rfl, rfl, -⟩ | ⟨H₃, -, rfl⟩
    · exact .inr hp
    · exact .inl ⟨H₁, b, H₃, rfl, hp⟩
  · intro h
    rcases h with ⟨H₁, b, H₃, rfl, hp⟩ | hp
    · exact ⟨H₁, b, H₃ ++ [a], by simp, hp⟩
    · exact ⟨H, a, [], rfl, hp⟩

theorem Once.imp {H : List α} (h : Once P H) (hi : ∀ H₁ a, P H₁ a → P' H₁ a) : Once P' H := by
  obtain ⟨H₁, a, H₂, rfl, hp⟩ := h
  exact ⟨H₁, a, H₂, rfl, hi _ _ hp⟩

theorem once_congr {H : List α} (hi : ∀ H₁ a, P H₁ a ↔ P' H₁ a) : Once P H ↔ Once P' H :=
  ⟨fun h => h.imp fun _ _ => (hi _ _).mp, fun h => h.imp fun _ _ => (hi _ _).mpr⟩

theorem once_eq_iff_mem {H : List α} {a : α} : Once (fun _ b => b = a) H ↔ a ∈ H := by
  constructor
  · intro h
    obtain ⟨H₁, b, H₂, rfl, rfl⟩ := h
    simp
  · intro h
    obtain ⟨H₁, H₂, rfl⟩ := List.append_of_mem h
    exact ⟨H₁, a, H₂, rfl, rfl⟩

/-- The events that occurred at a step with `P`, when one more does. -/
theorem setOf_once_snoc {H : List α} {a : α} (h : P H a) :
    {b | Once (fun K c => c = b ∧ P K b) (H ++ [a])} =
      insert a {b | Once (fun K c => c = b ∧ P K b) H} := by
  ext b
  simp only [Set.mem_ofPred_eq, once_snoc, Set.mem_insert_iff]
  constructor
  · intro h
    rcases h with hb | ⟨rfl, -⟩
    · exact .inr hb
    · exact .inl rfl
  · intro h
    rcases h with rfl | hb
    · exact .inr ⟨rfl, h⟩
    · exact .inl hb

theorem setOf_once_snoc_of_not {H : List α} {a : α} (h : ¬ P H a) :
    {b | Once (fun K c => c = b ∧ P K b) (H ++ [a])} = {b | Once (fun K c => c = b ∧ P K b) H} := by
  ext b
  simp only [Set.mem_ofPred_eq, once_snoc]
  refine or_iff_left ?_
  intro h
  obtain ⟨rfl, hb⟩ := h
  exact h hb

@[simp] theorem always_nil : Always P [] := by intro H₁ a H₂ h; simp at h

theorem always_snoc {H : List α} {a : α} : Always P (H ++ [a]) ↔ Always P H ∧ P H a := by
  constructor
  · intro h
    exact ⟨fun H₁ b H₂ he => h H₁ b (H₂ ++ [a]) (by rw [he]; simp), h H a [] rfl⟩
  · rintro ⟨h, ha⟩ H₁ b H₂ he
    rcases snoc_eq_split.mp he with ⟨rfl, rfl, -⟩ | ⟨H₃, -, rfl⟩
    · exact ha
    · exact h H₁ b H₃ rfl

@[simp] theorem not_since_nil : ¬ Since P Q [] := by rintro ⟨H₁, a, H₂, h, -⟩; simp at h

theorem since_snoc {H : List α} {a : α} :
    Since P Q (H ++ [a]) ↔ (Since P Q H ∧ ¬ Q a) ∨ P H a := by
  constructor
  · intro h
    obtain ⟨H₁, b, H₂, h, hp, hq⟩ := h
    rcases snoc_eq_split.mp h with ⟨rfl, rfl, -⟩ | ⟨H₃, rfl, rfl⟩
    · exact .inr hp
    · exact .inl ⟨⟨H₁, b, H₃, rfl, hp, fun c hc => hq c (by simp [hc])⟩, hq a (by simp)⟩
  · intro h
    rcases h with ⟨⟨H₁, b, H₃, rfl, hp, hq⟩, ha⟩ | hp
    · refine ⟨H₁, b, H₃ ++ [a], by simp, hp, fun c hc => ?_⟩
      rcases List.mem_append.mp hc with hc | hc
      · exact hq c hc
      · rw [List.mem_singleton] at hc
        exact hc ▸ ha
    · exact ⟨H, a, [], rfl, hp, by simp⟩

theorem Always.of_prefix {H K : List α} (h : Always P H) (hp : K <+: H) : Always P K := by
  obtain ⟨L, rfl⟩ := hp
  exact fun H₁ a H₂ he => h H₁ a (H₂ ++ L) (by rw [he]; simp)

theorem always_iff_get {H : List α} : Always P H ↔ ∀ i : Fin H.length, P (H.take i) (H.get i) := by
  constructor
  · intro h i
    refine h _ _ (H.drop (i + 1)) ?_
    rw [List.get_eq_getElem, List.getElem_cons_drop, List.take_append_drop]
  · intro h H₁ a H₂ he
    subst he
    simpa using h ⟨H₁.length, by simp⟩

/-- Whether `P` held at every step of a history can be evaluated. -/
instance [∀ H a, Decidable (P H a)] (H : List α) : Decidable (Always P H) :=
  decidable_of_iff _ always_iff_get.symm

/-! ## What the steps yield -/

section
variable {β : Type*}

/-- What each step yields, one after the other. -/
def collect (f : List α → α → List β) (H : List α) : List β :=
  (H.foldl (fun acc a => (acc.1 ++ [a], acc.2 ++ f acc.1 a)) ([], [])).2

@[simp] theorem collect_nil (f : List α → α → List β) : collect f [] = [] := rfl

theorem collect_snoc (f : List α → α → List β) (H : List α) (a : α) :
    collect f (H ++ [a]) = collect f H ++ f H a := by
  have hfst : ∀ H : List α, (H.foldl (fun acc a => (acc.1 ++ [a], acc.2 ++ f acc.1 a)) ([], [])).1 =
      H := by
    intro H
    induction H using List.reverseRecOn with
    | nil => rfl
    | append_singleton H a ih => rw [List.foldl_append, List.foldl_cons, List.foldl_nil, ih]
  rw [collect, List.foldl_append, List.foldl_cons, List.foldl_nil, hfst, ← collect]

end

/-! ## Runs of a machine

A machine with a total step function runs along a history of actions. -/

section
variable {σ : Type*} {step : σ → α → σ} {s₀ : σ} {I R : σ → Prop} {C : σ → α → Prop}

/-- An invariant that the steps meeting `C` keep holds after every run of such
steps. -/
theorem Always.invariant (h₀ : I s₀) (hstep : ∀ s a, I s → C s a → I (step s a)) {H : List α}
    (h : Always (fun pre a => C (pre.foldl step s₀) a) H) : I (H.foldl step s₀) := by
  induction H using List.reverseRecOn with
  | nil => exact h₀
  | append_singleton H a ih =>
    obtain ⟨hH, ha⟩ := always_snoc.mp h
    rw [List.foldl_append]
    exact hstep _ a (ih hH) ha

/-- The steps of a run at which `M` holds. -/
def marked (step : σ → α → σ) (s₀ : σ) (M : σ → α → Prop) [∀ s a, Decidable (M s a)] (H : List α) :
    List α :=
  collect (fun pre a => if M (pre.foldl step s₀) a then [a] else []) H

/-- If no step raises the rank and each one at which `M` holds lowers it, there
are no more of these than the rank at the start. -/
theorem Always.length_marked_le {M : σ → α → Prop} [∀ s a, Decidable (M s a)] {r : σ → Nat} (h₀ : I s₀)
    (hstep : ∀ s a, I s → C s a → I (step s a))
    (hrank : ∀ s a, I s → C s a → r (step s a) + (if M s a then 1 else 0) ≤ r s) {H : List α}
    (h : Always (fun pre a => C (pre.foldl step s₀) a) H) :
    (marked step s₀ M H).length + r (H.foldl step s₀) ≤ r s₀ := by
  induction H using List.reverseRecOn with
  | nil => simp [marked]
  | append_singleton H a ih =>
    obtain ⟨hH, ha⟩ := always_snoc.mp h
    have hlower := hrank _ a (hH.invariant h₀ hstep) ha
    have ih := ih hH
    simp only [marked, collect_snoc, List.length_append, List.foldl_append, List.foldl_cons,
      List.foldl_nil] at ih ⊢
    split at hlower <;> simp_all <;> omega

/-- **The condition is exact**, in runs whose steps all meet `A`: if the
invariant gives `R` and a step that meets `A` and not `C` breaks `R`, then `R`
holds in every state of such a run exactly when every step of it meets `C`. -/
theorem always_iff_within {A : σ → α → Prop} (h₀ : I s₀)
    (hstep : ∀ s a, I s → A s a → C s a → I (step s a)) (hR : ∀ s, I s → R s)
    (hbreak : ∀ s a, I s → A s a → ¬ C s a → ¬ R (step s a)) {H : List α}
    (hA : Always (fun pre a => A (pre.foldl step s₀) a) H) :
    (∀ pre, pre <+: H → R (pre.foldl step s₀)) ↔ Always (fun pre a => C (pre.foldl step s₀) a) H := by
  have hI : ∀ {K}, K <+: H → Always (fun pre a => C (pre.foldl step s₀) a) K → I (K.foldl step s₀) := by
    intro K hK hC
    refine Always.invariant (C := fun s a => A s a ∧ C s a) h₀ (fun s a hs h => hstep s a hs h.1 h.2) ?_
    exact fun pre a post he => ⟨hA.of_prefix hK pre a post he, hC pre a post he⟩
  refine ⟨fun h => ?_, fun h pre hp => hR _ (hI hp (h.of_prefix hp))⟩
  induction H using List.reverseRecOn with
  | nil => exact always_nil
  | append_singleton H a ih =>
    obtain ⟨hAH, ha⟩ := always_snoc.mp hA
    have hprefix := List.prefix_append H [a]
    have hH := ih hAH (fun hK => hI (hK.trans hprefix)) fun pre hp => h pre (hp.trans hprefix)
    refine always_snoc.mpr ⟨hH, ?_⟩
    by_contra hC
    have hR' := h (H ++ [a]) (List.prefix_refl _)
    rw [List.foldl_append] at hR'
    exact hbreak _ a (hI hprefix hH) ha hC hR'

theorem always_iff (h₀ : I s₀) (hstep : ∀ s a, I s → C s a → I (step s a)) (hR : ∀ s, I s → R s)
    (hbreak : ∀ s a, I s → ¬ C s a → ¬ R (step s a)) {H : List α} :
    (∀ pre, pre <+: H → R (pre.foldl step s₀)) ↔ Always (fun pre a => C (pre.foldl step s₀) a) H :=
  always_iff_within (A := fun _ _ => True) h₀ (fun s a hs _ => hstep s a hs) hR
    (fun s a hs _ => hbreak s a hs) fun _ _ _ _ => trivial

end

/-! ## One component of a run

A history of a system, seen by one component, is the history filtered to the
component's own events. -/

section
variable {β : Type*} (f : α → Option β) {R : List β → β → Prop} {S : β → Prop}

/-- A step of the component, as a step of the system. -/
def Lift (R : List β → β → Prop) (H : List α) (a : α) : Prop := ∃ b, f a = .some b ∧ R (H.filterMap f) b

theorem once_filterMap {H : List α} : Once R (H.filterMap f) ↔ Once (Lift f R) H := by
  induction H using List.reverseRecOn with
  | nil => simp
  | append_singleton H a ih =>
    rw [once_snoc, ← ih, List.filterMap_append]
    cases hfa : f a with
    | none => simp [Lift, hfa]
    | some b => simp [Lift, hfa, once_snoc]

theorem always_filterMap {H : List α} :
    Always R (H.filterMap f) ↔ Always (fun K a => ∀ b, f a = .some b → R (K.filterMap f) b) H := by
  induction H using List.reverseRecOn with
  | nil => simp
  | append_singleton H a ih =>
    rw [always_snoc, ← ih, List.filterMap_append]
    cases hfa : f a with
    | none => simp [hfa]
    | some b => simp [hfa, always_snoc]

/-- A state that the component has been in is one that the system has been in. -/
theorem forall_prefix_filterMap {T : List β → Prop} {H : List α} :
    (∀ pre, pre <+: H.filterMap f → T pre) ↔ ∀ pre, pre <+: H → T (pre.filterMap f) := by
  refine ⟨fun h pre hp => h _ (hp.filterMap f), fun h => ?_⟩
  induction H using List.reverseRecOn with
  | nil => exact fun pre hp => List.prefix_nil.mp hp ▸ h [] List.prefix_rfl
  | append_singleton H a ih =>
    have ih := ih fun pre hp => h pre (hp.trans (List.prefix_append H [a]))
    have hlast := h _ List.prefix_rfl
    rw [List.filterMap_append] at hlast ⊢
    cases hfa : f a with
    | none => simpa [hfa] using ih
    | some b =>
      intro pre hp
      simp only [List.filterMap_cons, hfa, List.filterMap_nil] at hp hlast
      rcases List.prefix_concat_iff.mp hp with rfl | hp
      · exact hlast
      · exact ih pre hp

theorem since_filterMap {H : List α} :
    Since R S (H.filterMap f) ↔ Since (Lift f R) (fun a => ∃ b, f a = .some b ∧ S b) H := by
  induction H using List.reverseRecOn with
  | nil => simp
  | append_singleton H a ih =>
    rw [since_snoc, ← ih, List.filterMap_append]
    cases hfa : f a with
    | none => simp [Lift, hfa]
    | some b => simp [Lift, hfa, since_snoc]

end

end Past
