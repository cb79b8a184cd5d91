/-
DirectStorage/Lts.lean

Labelled transition systems with a partial step function.

A system is a function `δ : σ → α → Option σ`: in state `s` the label `a`
either is not enabled (`none`) or leads to exactly one state.  All
nondeterminism (the scheduler's choice, the outcome of an allocation, the
value an oracle returns) sits in the label, so a run is a list of labels and
can be computed.

The notions used everywhere else:

* `RunOk δ ok s as` says that every step of the run `as` from `s` meets the
  side condition `ok`, which may look at the state before the step and at the
  label;
* `Throughout δ s as P` says that every state the run passes through is a
  `P`-state;
* `Occurs δ s as E` says that some step of the run is an `E`-step;
* `outputs δ out s as` lists what the steps of the run put out.

Main results: the invariant rule `run_invariant`, its history form
`run_history`, the rank rule `run_length_le`, forward simulation
(`run_simulation`, `run_simulation_throughout`), the rule for a side condition that
is exactly what a safety property needs (`runOk_iff_throughout`), and the way
occurrences persist along a run (`OccursAt.snoc`, `OccursAt.last`,
`OccursAt.of_snoc`).
-/
import Mathlib.Tactic.Common
import Mathlib.Data.List.Induction

namespace DirectStorage

variable {σ α : Type*}

/-! ### Runs -/

/-- Run a list of labels; `none` as soon as one of them is not enabled. -/
def run (δ : σ → α → Option σ) : σ → List α → Option σ
  | s, [] => some s
  | s, a :: as => (δ s a).bind fun t => run δ t as

/-- Every step of the run meets the side condition `ok`. -/
def RunOk (δ : σ → α → Option σ) (ok : σ → α → Prop) : σ → List α → Prop
  | _, [] => True
  | s, a :: as => ok s a ∧ ∀ t, δ s a = some t → RunOk δ ok t as

variable {δ : σ → α → Option σ} {ok : σ → α → Prop}

@[simp] theorem run_nil (s : σ) : run δ s [] = some s := rfl

theorem run_cons_iff {s t : σ} {a : α} {as : List α} :
    run δ s (a :: as) = some t ↔ ∃ u, δ s a = some u ∧ run δ u as = some t := by
  simp [run, Option.bind_eq_some_iff]

theorem run_append {s u : σ} {as bs : List α} (h : run δ s as = some u) :
    run δ s (as ++ bs) = run δ u bs := by
  induction as generalizing s with
  | nil => simp only [run_nil, Option.some.injEq] at h; rw [h]; rfl
  | cons a as ih =>
      obtain ⟨v, hv, hrest⟩ := run_cons_iff.mp h
      simp only [List.cons_append, run, hv, Option.bind_some]
      exact ih hrest

/-- A run that is stuck on `as` is stuck on every extension of it. -/
theorem run_append_none {s : σ} {as : List α} (bs : List α)
    (h : run δ s as = none) : run δ s (as ++ bs) = none := by
  induction as generalizing s with
  | nil => simp at h
  | cons a as ih =>
      rcases e : δ s a with - | v
      · simp [run, e]
      · have hrest : run δ v as = none := by simpa [run, e] using h
        simpa [run, e] using ih hrest

/-- A nonempty run split at its last label. -/
theorem run_snoc_iff {s t : σ} {a : α} {as : List α} :
    run δ s (as ++ [a]) = some t ↔ ∃ u, run δ s as = some u ∧ δ u a = some t := by
  constructor
  · intro h
    rcases e : run δ s as with - | u
    · rw [run_append_none [a] e] at h; cases h
    · refine ⟨u, rfl, ?_⟩
      rw [run_append e] at h
      simpa [run, Option.bind_eq_some_iff] using h
  · rintro ⟨u, hu, ha⟩
    rw [run_append hu]
    simp [run, ha]

/-- Labels that meet the condition in every state meet it along every run. -/
theorem runOk_of_forall {as : List α} (h : ∀ a ∈ as, ∀ s, ok s a) (s : σ) :
    RunOk δ ok s as := by
  induction as generalizing s with
  | nil => trivial
  | cons a as ih =>
      refine ⟨h a List.mem_cons_self s, ?_⟩
      intro t _
      exact ih (fun b hb => h b (List.mem_cons_of_mem a hb)) t

theorem runOk_trivial (s : σ) (as : List α) : RunOk δ (fun _ _ => True) s as :=
  runOk_of_forall (fun _ _ _ => trivial) s

theorem runOk_append_iff {s u : σ} {as bs : List α} (hrun : run δ s as = some u) :
    RunOk δ ok s (as ++ bs) ↔ RunOk δ ok s as ∧ RunOk δ ok u bs := by
  induction as generalizing s with
  | nil =>
      simp only [run_nil, Option.some.injEq] at hrun
      subst hrun
      exact ⟨fun h => ⟨trivial, h⟩, fun h => h.2⟩
  | cons b as ih =>
      obtain ⟨v, hv, hrest⟩ := run_cons_iff.mp hrun
      have hv' : ∀ t, δ s b = some t → t = v := fun t ht =>
        Option.some.inj (ht.symm.trans hv)
      constructor
      · rintro ⟨hb, hall⟩
        obtain ⟨h₁, h₂⟩ := (ih hrest).mp (hall v hv)
        refine ⟨⟨hb, ?_⟩, h₂⟩
        intro t ht
        rw [hv' t ht]
        exact h₁
      · rintro ⟨⟨hb, hall⟩, h₂⟩
        refine ⟨hb, ?_⟩
        intro t ht
        rw [hv' t ht]
        exact (ih hrest).mpr ⟨hall v hv, h₂⟩

theorem runOk_snoc_iff {s u : σ} {a : α} {as : List α} (hrun : run δ s as = some u) :
    RunOk δ ok s (as ++ [a]) ↔ RunOk δ ok s as ∧ ok u a := by
  rw [runOk_append_iff hrun]
  exact and_congr_right fun _ => ⟨fun h => h.1, fun h => ⟨h, fun _ _ => trivial⟩⟩

/-- A side condition that can be tested can be tested along a run. -/
instance RunOk.decidable [∀ s a, Decidable (ok s a)] :
    (s : σ) → (as : List α) → Decidable (RunOk δ ok s as)
  | _, [] => isTrue trivial
  | s, a :: as =>
      match h : δ s a with
      | none => decidable_of_iff (ok s a) (by simp [RunOk, h])
      | some t =>
          have := RunOk.decidable t as
          decidable_of_iff (ok s a ∧ RunOk δ ok t as) (by simp [RunOk, h])

/-- A computed run: the final state exists and passes the test. -/
theorem exists_of_run_any (s : σ) (as : List α) (p : σ → Bool)
    (h : (run δ s as).any p = true) : ∃ t, run δ s as = some t ∧ p t = true := by
  rcases e : run δ s as with - | t
  · rw [e] at h
    cases h
  · rw [e] at h
    exact ⟨t, rfl, h⟩

/-! ### Invariants of runs -/

/-- **History rule**: a property of (labels so far, current state) that holds
at the start and is kept by every step that meets `ok` holds at the end of
every run whose steps all meet `ok`. -/
theorem run_history {P : List α → σ → Prop} {s₀ : σ} (h₀ : P [] s₀)
    (hstep : ∀ as s a t, run δ s₀ as = some s → RunOk δ ok s₀ as → P as s →
      ok s a → δ s a = some t → P (as ++ [a]) t)
    {as : List α} {t : σ} (hok : RunOk δ ok s₀ as)
    (hrun : run δ s₀ as = some t) : P as t := by
  induction as using List.reverseRecOn generalizing t with
  | nil =>
      simp only [run_nil, Option.some.injEq] at hrun
      subst hrun
      exact h₀
  | append_singleton as a ih =>
      obtain ⟨u, hu, ha⟩ := run_snoc_iff.mp hrun
      obtain ⟨hok', hlast⟩ := (runOk_snoc_iff hu).mp hok
      exact hstep as u a t hu hok' (ih hok' hu) hlast ha

/-- **Invariant rule**: what holds at the start and is kept by every step that
meets `ok` holds at the end of every run whose steps all meet `ok`. -/
theorem run_invariant {I : σ → Prop} {s₀ : σ} (h₀ : I s₀)
    (hstep : ∀ s a t, I s → ok s a → δ s a = some t → I t)
    {as : List α} {t : σ} (hok : RunOk δ ok s₀ as)
    (hrun : run δ s₀ as = some t) : I t :=
  run_history (P := fun _ s => I s) h₀
    (fun _ s a t _ _ hs hs' ha => hstep s a t hs hs' ha) hok hrun

/-- **Rank rule**: when the steps that meet `ok` lower a rank, a run of such steps
is no longer than the rank it starts with. -/
theorem run_length_le {I : σ → Prop} {rank : σ → Nat}
    (hstep : ∀ s a t, I s → ok s a → δ s a = some t → I t ∧ rank t < rank s)
    {s t : σ} {as : List α} (hI : I s) (hok : RunOk δ ok s as) (hrun : run δ s as = some t) :
    as.length + rank t ≤ rank s := by
  induction as generalizing s with
  | nil =>
      obtain rfl := Option.some.inj hrun
      exact Nat.le_of_eq (Nat.zero_add _)
  | cons a as ih =>
      obtain ⟨u, hu, hrest⟩ := run_cons_iff.mp hrun
      obtain ⟨hIu, hlt⟩ := hstep s a u hI hok.1 hu
      have hle := ih hIu (hok.2 u hu) hrest
      rw [List.length_cons]
      omega

/-- **Forward simulation**: when every step from related states is answered by a run
of the other system that leads to related states, so is every run. -/
theorem run_simulation {τ β : Type*} {ε : τ → β → Option τ} {Q : τ → β → Prop}
    {R : σ → τ → Prop}
    (hstep : ∀ s a t u, R s u → δ s a = some t →
      ∃ bs v, run ε u bs = some v ∧ RunOk ε Q u bs ∧ R t v)
    {s t : σ} {u : τ} {as : List α} (h : R s u) (hrun : run δ s as = some t) :
    ∃ bs v, run ε u bs = some v ∧ RunOk ε Q u bs ∧ R t v := by
  induction as generalizing s u with
  | nil =>
      obtain rfl := Option.some.inj hrun
      exact ⟨[], u, rfl, trivial, h⟩
  | cons a as ih =>
      obtain ⟨s', hs', hrest⟩ := run_cons_iff.mp hrun
      obtain ⟨bs, u', hbs, hok, h'⟩ := hstep s a s' u h hs'
      obtain ⟨bs', v, hbs', hok', hv⟩ := ih h' hrest
      exact ⟨bs ++ bs', v, (run_append hbs).trans hbs', (runOk_append_iff hbs).mpr ⟨hok, hok'⟩, hv⟩

/-- The same for every state on the way: the answering run passes through states
related to those the run passes through. -/
theorem run_simulation_throughout {τ β : Type*} {ε : τ → β → Option τ} {R : σ → τ → Prop}
    (hstep : ∀ s a t u, R s u → δ s a = some t → ∃ bs v, run ε u bs = some v ∧ R t v)
    {s t : σ} {u : τ} {as : List α} (h : R s u) (hrun : run δ s as = some t) :
    ∃ bs, ∀ pre r, pre <+: as → run δ s pre = some r →
      ∃ pre' v, pre' <+: bs ∧ run ε u pre' = some v ∧ R r v := by
  induction as generalizing s u with
  | nil =>
      refine ⟨[], ?_⟩
      intro pre r hpre hr
      obtain rfl := List.prefix_nil.mp hpre
      obtain rfl := Option.some.inj hr
      exact ⟨[], u, List.prefix_refl [], rfl, h⟩
  | cons a as ih =>
      obtain ⟨s', hs', hrest⟩ := run_cons_iff.mp hrun
      obtain ⟨bs, u', hbs, h'⟩ := hstep s a s' u h hs'
      obtain ⟨bs', hall⟩ := ih h' hrest
      refine ⟨bs ++ bs', ?_⟩
      intro pre r hpre hr
      rcases List.prefix_cons_iff.mp hpre with rfl | ⟨pre₁, rfl, hpre₁⟩
      · obtain rfl := Option.some.inj hr
        exact ⟨[], u, List.nil_prefix, rfl, h⟩
      · obtain ⟨s₁, hs₁, hr₁⟩ := run_cons_iff.mp hr
        obtain rfl := Option.some.inj (hs'.symm.trans hs₁)
        obtain ⟨pre', v, hpre', hv, hR⟩ := hall pre₁ r hpre₁ hr₁
        exact ⟨bs ++ pre', v, (List.prefix_append_right_inj bs).mpr hpre',
          (run_append hbs).trans hv, hR⟩

/-- What an invariant of the steps that meet `ok` says about each of them. -/
theorem runOk_of_invariant {ok' : σ → α → Prop} {I : σ → Prop} {s₀ : σ} (h₀ : I s₀)
    (hstep : ∀ s a t, I s → ok s a → δ s a = some t → I t)
    (hgood : ∀ s a, I s → ok s a → ok' s a) {as : List α} (hok : RunOk δ ok s₀ as) :
    RunOk δ ok' s₀ as := by
  induction as generalizing s₀ with
  | nil => trivial
  | cons a as ih =>
      refine ⟨hgood s₀ a h₀ hok.1, ?_⟩
      intro t ht
      exact ih (hstep s₀ a t h₀ hok.1 ht) (hok.2 t ht)

/-- Every state the run passes through, the first and the last included, is a
`P`-state. -/
def Throughout (δ : σ → α → Option σ) (s : σ) (as : List α) (P : σ → Prop) : Prop :=
  ∀ pre u, pre <+: as → run δ s pre = some u → P u

theorem Throughout.last {P : σ → Prop} {s t : σ} {as : List α} (h : Throughout δ s as P)
    (hrun : run δ s as = some t) : P t :=
  h as t (List.prefix_refl as) hrun

/-- **Exact side conditions**: if the steps that meet `ok` keep an invariant
that implies `P`, and a step from an invariant state that does not meet `ok`
leads out of `P`, then a run stays in `P` exactly when its steps meet `ok`. -/
theorem runOk_iff_throughout {I P : σ → Prop} {s₀ : σ} (h₀ : I s₀)
    (hstep : ∀ s a t, I s → ok s a → δ s a = some t → I t) (hgood : ∀ s, I s → P s)
    (hexact : ∀ s a t, I s → δ s a = some t → P t → ok s a)
    {as : List α} {t : σ} (hrun : run δ s₀ as = some t) :
    RunOk δ ok s₀ as ↔ Throughout δ s₀ as P := by
  constructor
  · rintro hok pre u ⟨post, rfl⟩ hpre
    have hpreOk := ((runOk_append_iff hpre).mp hok).1
    exact hgood u (run_invariant h₀ hstep hpreOk hpre)
  · intro hall
    -- along the run: the steps so far meet `ok`, so the invariant holds
    induction as using List.reverseRecOn generalizing t with
    | nil => trivial
    | append_singleton as a ih =>
        obtain ⟨u, hu, ha⟩ := run_snoc_iff.mp hrun
        have hok : RunOk δ ok s₀ as := by
          refine ih hu ?_
          intro pre v hpre hv
          exact hall pre v (hpre.trans (List.prefix_append as [a])) hv
        refine (runOk_snoc_iff hu).mpr ⟨hok, ?_⟩
        exact hexact u a t (run_invariant h₀ hstep hok hu) ha (hall.last hrun)

/-! ### Outputs -/

/-- What the steps of a run put out, in their order. -/
def outputs {β : Type*} (δ : σ → α → Option σ) (out : σ → α → Option β) :
    σ → List α → List β
  | _, [] => []
  | s, a :: as =>
      match δ s a with
      | none => []
      | some t => (out s a).toList ++ outputs δ out t as

theorem outputs_snoc {β : Type*} {out : σ → α → Option β} {s u v : σ} {a : α} {as : List α}
    (hrun : run δ s as = some u) (ha : δ u a = some v) :
    outputs δ out s (as ++ [a]) = outputs δ out s as ++ (out u a).toList := by
  induction as generalizing s with
  | nil =>
      obtain rfl := Option.some.inj hrun
      simp [outputs, ha]
  | cons b as ih =>
      obtain ⟨w, hw, hrest⟩ := run_cons_iff.mp hrun
      simp only [List.cons_append, outputs, hw, List.append_assoc]
      rw [ih hrest]

/-! ### Occurrences -/

/-- Some step of the run `as` from `s` is an `E`-step, taken after the labels
`pre`. -/
def OccursAt (δ : σ → α → Option σ) (s : σ) (as pre : List α)
    (E : σ → α → σ → Prop) : Prop :=
  ∃ a post u v, as = pre ++ a :: post ∧ run δ s pre = some u ∧
    δ u a = some v ∧ E u a v

/-- Some step of the run `as` from `s` is an `E`-step. -/
def Occurs (δ : σ → α → Option σ) (s : σ) (as : List α)
    (E : σ → α → σ → Prop) : Prop :=
  ∃ pre, OccursAt δ s as pre E

variable {E : σ → α → σ → Prop} {s u v : σ} {a : α} {as pre : List α}

theorem OccursAt.snoc (h : OccursAt δ s as pre E) (b : α) :
    OccursAt δ s (as ++ [b]) pre E := by
  obtain ⟨a, post, u, v, rfl, hpre, ha, hE⟩ := h
  exact ⟨a, post ++ [b], u, v, by simp, hpre, ha, hE⟩

theorem OccursAt.last (hrun : run δ s as = some u) (ha : δ u a = some v)
    (hE : E u a v) : OccursAt δ s (as ++ [a]) as E :=
  ⟨a, [], u, v, rfl, hrun, ha, hE⟩

theorem OccursAt.length_lt (h : OccursAt δ s as pre E) : pre.length < as.length := by
  obtain ⟨a, post, u, v, rfl, -⟩ := h
  rw [List.length_append, List.length_cons]
  omega

/-- A label of a kind that occurs once in a list is found in one place only. -/
theorem split_unique {p : α → Prop} {pre post pre₀ post₀ : List α} {b : α}
    (heq : pre ++ a :: post = pre₀ ++ b :: post₀) (ha : p a) (hpre : ∀ c ∈ pre₀, ¬ p c)
    (hpost : ∀ c ∈ post₀, ¬ p c) : pre = pre₀ ∧ a = b := by
  rcases List.append_eq_append_iff.mp heq with ⟨l, rfl, hl⟩ | ⟨l, rfl, hl⟩
  · cases l with
    | nil =>
        obtain ⟨hab, -⟩ := List.cons.inj hl
        exact ⟨(List.append_nil _).symm, hab⟩
    | cons c l =>
        -- `a` would stand in `pre₀`
        obtain ⟨rfl, -⟩ := List.cons.inj hl
        exact absurd ha (hpre a (List.mem_append_right _ List.mem_cons_self))
  · cases l with
    | nil =>
        obtain ⟨hab, -⟩ := List.cons.inj hl
        exact ⟨List.append_nil _, hab.symm⟩
    | cons c l =>
        -- `a` would stand in `post₀`
        obtain ⟨-, hl'⟩ := List.cons.inj hl
        exact absurd ha (hpost a (hl' ▸ List.mem_append_right _ List.mem_cons_self))

/-- An occurrence in a run extended by one label is either an old one or the
last step. -/
theorem OccursAt.of_snoc {b : α} (hrun : run δ s as = some u)
    (hb : δ u b = some v) (h : OccursAt δ s (as ++ [b]) pre E) :
    OccursAt δ s as pre E ∨ (pre = as ∧ E u b v) := by
  obtain ⟨a, post, u', v', heq, hpre, ha, hE⟩ := h
  rcases List.eq_nil_or_concat post with rfl | ⟨post', c, rfl⟩
  · right
    obtain ⟨rfl, hab⟩ := List.append_inj' heq rfl
    obtain rfl : b = a := by simpa using hab
    rw [hrun] at hpre
    obtain rfl := Option.some.inj hpre
    rw [hb] at ha
    obtain rfl := Option.some.inj ha
    exact ⟨rfl, hE⟩
  · left
    have heq' : as ++ [b] = (pre ++ a :: post') ++ [c] := by simpa using heq
    obtain ⟨has, -⟩ := List.append_inj' heq' rfl
    exact ⟨a, post', u', v', has, hpre, ha, hE⟩

end DirectStorage
