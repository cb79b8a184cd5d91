/-
DirectStorage/Ledger.lean

A ledger of handles: what a program acquired from a library, and what it
released again.

A handle may be created from others, its parents, and then must be released
before them.  The ledger is the log of both kinds of events, with a counter from
which each new handle gets its number.  `Disciplined` is what a log has to
satisfy: a handle is released only while it is live (so at most once), and only
after every handle created from it.

`Owns L leaves chain` says that a program which has kept to this knows exactly
what is live: the `leaves`, from which nothing has been created and which it may
release in any order, and the `chain`, which it may release from its head on.
There is one rule for each thing such a program does: `Owns.acquireLeaf`,
`Owns.releaseLeaf`, `Owns.acquireChain`, `Owns.releaseChain`.

`Holdings` is the common case of a program with one field for each kind of
handle; `Holds` says which fields are set, and that nothing else is live.
-/
import Mathlib.Tactic.Common
import Mathlib.Data.List.Nodup
import Mathlib.Data.List.Count

namespace DirectStorage

variable {κ : Type*}

/-! ### Logs -/

/-- What happened to a handle; a handle is its kind and its number. -/
inductive LedgerEvent (κ : Type*)
  | acquire (h : κ × Nat) (parents : List (κ × Nat))
  | release (h : κ × Nat)
  deriving DecidableEq

/-- The log so far, and the number of the next handle. -/
structure Ledger (κ : Type*) where
  log : List (LedgerEvent κ)
  next : Nat

namespace Ledger

def empty : Ledger κ := ⟨[], 0⟩

/-- A new handle is acquired from its parents. -/
def acquire (L : Ledger κ) (kind : κ) (parents : List (κ × Nat)) : Ledger κ :=
  ⟨L.log ++ [.acquire (kind, L.next) parents], L.next + 1⟩

def release (L : Ledger κ) (h : κ × Nat) : Ledger κ := ⟨L.log ++ [.release h], L.next⟩

end Ledger

/-- `h` was acquired. -/
def Acquired (log : List (LedgerEvent κ)) (h : κ × Nat) : Prop := ∃ ps, .acquire h ps ∈ log

/-- The event acquires `h`. -/
def LedgerEvent.acquires [DecidableEq κ] (h : κ × Nat) : LedgerEvent κ → Bool
  | .acquire h' _ => decide (h' = h)
  | .release _ => false

theorem any_acquires_iff [DecidableEq κ] {log : List (LedgerEvent κ)} {h : κ × Nat} :
    log.any (LedgerEvent.acquires h) = true ↔ Acquired log h := by
  rw [List.any_eq_true]
  constructor
  · rintro ⟨e, hmem, he⟩
    cases e with
    | acquire h' ps =>
        obtain rfl := of_decide_eq_true he
        exact ⟨ps, hmem⟩
    | release h' => cases he
  · rintro ⟨ps, hmem⟩
    exact ⟨_, hmem, decide_eq_true rfl⟩

instance [DecidableEq κ] (log : List (LedgerEvent κ)) (h : κ × Nat) : Decidable (Acquired log h) :=
  decidable_of_iff _ any_acquires_iff

/-- `h` was acquired and not released. -/
def Live (log : List (LedgerEvent κ)) (h : κ × Nat) : Prop := Acquired log h ∧ .release h ∉ log

/-- `h` was created from `p`. -/
def Child (log : List (LedgerEvent κ)) (p h : κ × Nat) : Prop := ∃ ps, .acquire h ps ∈ log ∧ p ∈ ps

/-- A handle is released only while it is live, and only after every handle that
is ever created from it. -/
structure Disciplined (log : List (LedgerEvent κ)) : Prop where
  release_live : ∀ pre h post, log = pre ++ .release h :: post → Live pre h
  children_first : ∀ pre p post, log = pre ++ .release p :: post →
    ∀ h, Child log p h → .release h ∈ pre

variable {log : List (LedgerEvent κ)} {h p : κ × Nat} {ps : List (κ × Nat)}

/-- In a disciplined log no handle is released twice. -/
theorem Disciplined.count_release_le [DecidableEq κ] (hd : Disciplined log) (h : κ × Nat) :
    log.count (.release h) ≤ 1 := by
  by_contra hgt
  have hmem : .release h ∈ log := List.count_pos_iff.mp (by omega)
  obtain ⟨pre, post, rfl⟩ := List.append_of_mem hmem
  rw [List.count_append, List.count_cons_self] at hgt
  -- the other release comes earlier or later; either way the later one is of a dead handle
  by_cases hpre : .release h ∈ pre
  · exact (hd.release_live pre h post rfl).2 hpre
  · have hpost : .release h ∈ post := by
      refine List.count_pos_iff.mp ?_
      rw [List.count_eq_zero_of_not_mem hpre] at hgt
      omega
    obtain ⟨mid, post', rfl⟩ := List.append_of_mem hpost
    refine (hd.release_live (pre ++ .release h :: mid) h post' (by simp)).2 ?_
    exact List.mem_append_right _ List.mem_cons_self

/-! ### One more event -/

theorem acquired_snoc {e : LedgerEvent κ} :
    Acquired (log ++ [e]) h ↔ Acquired log h ∨ ∃ ps, e = .acquire h ps := by
  constructor
  · rintro ⟨ps, hmem⟩
    rcases List.mem_append.mp hmem with hmem | hmem
    · exact .inl ⟨ps, hmem⟩
    · exact .inr ⟨ps, (List.mem_singleton.mp hmem).symm⟩
  · rintro (⟨ps, hmem⟩ | ⟨ps, rfl⟩)
    · exact ⟨ps, List.mem_append_left _ hmem⟩
    · exact ⟨ps, List.mem_append_right _ List.mem_cons_self⟩

theorem child_acquire {h' : κ × Nat} :
    Child (log ++ [.acquire h ps]) p h' ↔ Child log p h' ∨ (h' = h ∧ p ∈ ps) := by
  constructor
  · rintro ⟨ps', hmem, hp⟩
    rcases List.mem_append.mp hmem with hmem | hmem
    · exact .inl ⟨ps', hmem, hp⟩
    · cases List.mem_singleton.mp hmem
      exact .inr ⟨rfl, hp⟩
  · rintro (⟨ps', hmem, hp⟩ | ⟨rfl, hp⟩)
    · exact ⟨ps', List.mem_append_left _ hmem, hp⟩
    · exact ⟨ps, List.mem_append_right _ List.mem_cons_self, hp⟩

theorem child_release {h' : κ × Nat} : Child (log ++ [.release h]) p h' ↔ Child log p h' := by
  constructor
  · rintro ⟨ps, hmem, hp⟩
    rcases List.mem_append.mp hmem with hmem | hmem
    · exact ⟨ps, hmem, hp⟩
    · cases List.mem_singleton.mp hmem
  · rintro ⟨ps, hmem, hp⟩
    exact ⟨ps, List.mem_append_left _ hmem, hp⟩

theorem live_acquire {h' : κ × Nat} (hfresh : .release h ∉ log) :
    Live (log ++ [.acquire h ps]) h' ↔ h' = h ∨ Live log h' := by
  simp only [Live, acquired_snoc, List.mem_append, List.mem_singleton, reduceCtorEq, or_false]
  constructor
  · rintro ⟨hacq | ⟨ps', heq⟩, hrel⟩
    · exact .inr ⟨hacq, hrel⟩
    · cases heq
      exact .inl rfl
  · rintro (rfl | ⟨hacq, hrel⟩)
    · exact ⟨.inr ⟨ps, rfl⟩, hfresh⟩
    · exact ⟨.inl hacq, hrel⟩

theorem live_release {h' : κ × Nat} :
    Live (log ++ [.release h]) h' ↔ Live log h' ∧ h' ≠ h := by
  simp only [Live, acquired_snoc, List.mem_append, List.mem_singleton, reduceCtorEq, exists_false,
    or_false, LedgerEvent.release.injEq, not_or, and_assoc]

/-- A log that ends in `e`, cut at one of its releases: the cut is at `e`, or in
what comes before. -/
theorem snoc_eq_append_release {e : LedgerEvent κ} {pre post : List (LedgerEvent κ)}
    (heq : log ++ [e] = pre ++ .release p :: post) :
    (e = .release p ∧ pre = log) ∨ ∃ post', log = pre ++ .release p :: post' := by
  rcases List.eq_nil_or_concat post with rfl | ⟨post', e', rfl⟩
  · obtain ⟨hlog, he⟩ := List.append_inj' heq rfl
    exact .inl ⟨List.singleton_inj.mp he, hlog.symm⟩
  · right
    refine ⟨post', ?_⟩
    rw [List.concat_eq_append, ← List.cons_append, ← List.append_assoc] at heq
    exact (List.append_inj' heq rfl).1

theorem Disciplined.acquire (hd : Disciplined log) (hps : ∀ q ∈ ps, .release q ∉ log) :
    Disciplined (log ++ [.acquire h ps]) := by
  refine ⟨?_, ?_⟩
  · intro pre q post heq
    rcases snoc_eq_append_release heq with ⟨⟨⟩, -⟩ | ⟨post', hlog⟩
    exact hd.release_live pre q post' hlog
  · intro pre q post heq c hchild
    rcases snoc_eq_append_release heq with ⟨⟨⟩, -⟩ | ⟨post', hlog⟩
    rcases child_acquire.mp hchild with hold | ⟨-, hq⟩
    · exact hd.children_first pre q post' hlog c hold
    · -- a parent of the new handle has not been released
      refine absurd ?_ (hps q hq)
      rw [hlog]
      exact List.mem_append_right _ List.mem_cons_self

theorem Disciplined.release (hd : Disciplined log) (hlive : Live log h)
    (hchildren : ∀ c, Child log h c → .release c ∈ log) : Disciplined (log ++ [.release h]) := by
  refine ⟨?_, ?_⟩
  · intro pre q post heq
    rcases snoc_eq_append_release heq with ⟨hq, rfl⟩ | ⟨post', hlog⟩
    · cases hq
      exact hlive
    · exact hd.release_live pre q post' hlog
  · intro pre q post heq c hchild
    rw [child_release] at hchild
    rcases snoc_eq_append_release heq with ⟨hq, rfl⟩ | ⟨post', hlog⟩
    · cases hq
      exact hchildren c hchild
    · exact hd.children_first pre q post' hlog c hchild

/-! ### Ownership -/

/-- The event mentions `h`, as its handle or as a parent. -/
def LedgerEvent.Mentions (h : κ × Nat) : LedgerEvent κ → Prop
  | .acquire h' ps => h' = h ∨ h ∈ ps
  | .release h' => h' = h

/-- The log is disciplined, and what is live is exactly known. -/
structure Owns (L : Ledger κ) (leaves chain : List (κ × Nat)) : Prop where
  disciplined : Disciplined L.log
  /-- Numbers are not reused. -/
  bound : ∀ e ∈ L.log, ∀ h, e.Mentions h → h.2 < L.next
  /-- Nothing is created from itself. -/
  irrefl : ∀ h, ¬ Child L.log h h
  nodup : (leaves ++ chain).Nodup
  live : ∀ h, Live L.log h ↔ h ∈ leaves ++ chain
  /-- Nothing has been created from a leaf. -/
  leaf : ∀ h ∈ leaves, ∀ c, ¬ Child L.log h c
  /-- Nothing in the chain has been created from something before it. -/
  order : chain.Pairwise fun x y => ¬ Child L.log x y

namespace Owns

variable {L : Ledger κ} {leaves leaves' chain : List (κ × Nat)} {kind : κ}

theorem empty : Owns (Ledger.empty : Ledger κ) [] [] := by
  refine ⟨⟨?_, ?_⟩, ?_, ?_, List.nodup_nil, ?_, ?_, List.Pairwise.nil⟩
  · intro pre h post heq
    simp [Ledger.empty] at heq
  · intro pre p post heq
    simp [Ledger.empty] at heq
  · rintro e ⟨⟩
  · rintro h ⟨ps, ⟨⟩, -⟩
  · intro h
    constructor
    · rintro ⟨⟨ps, ⟨⟩⟩, -⟩
    · rintro ⟨⟩
  · rintro h ⟨⟩

/-- The order of the leaves does not matter. -/
theorem perm (ho : Owns L leaves chain) (hperm : leaves.Perm leaves') : Owns L leaves' chain := by
  refine ⟨ho.disciplined, ho.bound, ho.irrefl, ?_, ?_, ?_, ho.order⟩
  · exact (hperm.append_right chain).nodup_iff.mp ho.nodup
  · intro h
    rw [ho.live h]
    exact (hperm.append_right chain).mem_iff
  · intro h hmem
    exact ho.leaf h (hperm.mem_iff.mpr hmem)

theorem release_not_mem (ho : Owns L leaves chain) (hmem : p ∈ leaves ++ chain) :
    .release p ∉ L.log :=
  ((ho.live p).mpr hmem).2

/-- The next handle has never been mentioned. -/
theorem fresh (ho : Owns L leaves chain) (kind : κ) {e : LedgerEvent κ} (he : e ∈ L.log) :
    ¬ e.Mentions (kind, L.next) := fun hm => Nat.lt_irrefl _ (ho.bound e he _ hm)

theorem fresh_not_mem (ho : Owns L leaves chain) (kind : κ) :
    (kind, L.next) ∉ leaves ++ chain := by
  intro hmem
  obtain ⟨ps, hacq⟩ := ((ho.live _).mpr hmem).1
  exact ho.fresh kind hacq (.inl rfl)

theorem fresh_not_parent (ho : Owns L leaves chain) (kind : κ) (c : κ × Nat) :
    ¬ Child L.log (kind, L.next) c := by
  rintro ⟨ps, hacq, hp⟩
  exact ho.fresh kind hacq (.inr hp)

/-- What an acquisition does to the log, wherever the new handle is kept. -/
theorem acquire_log (ho : Owns L leaves chain) (kind : κ) (hps : ∀ q ∈ ps, q ∈ chain) :
    Disciplined (L.acquire kind ps).log ∧
      (∀ e ∈ (L.acquire kind ps).log, ∀ h, e.Mentions h → h.2 < (L.acquire kind ps).next) ∧
      (∀ h, ¬ Child (L.acquire kind ps).log h h) ∧
      ∀ h, Live (L.acquire kind ps).log h ↔ h = (kind, L.next) ∨ h ∈ leaves ++ chain := by
  have hparent : ∀ q ∈ ps, q ∈ leaves ++ chain := fun q hq => List.mem_append_right _ (hps q hq)
  refine ⟨?_, ?_, ?_, ?_⟩
  · exact ho.disciplined.acquire fun q hq => ho.release_not_mem (hparent q hq)
  · intro e he h hm
    show h.2 < L.next + 1
    rcases List.mem_append.mp he with he | he
    · exact Nat.lt_succ_of_lt (ho.bound e he h hm)
    · rw [List.mem_singleton.mp he] at hm
      rcases hm with rfl | hm
      · exact Nat.lt_succ_self _
      · obtain ⟨ps', hacq⟩ := ((ho.live h).mpr (hparent h hm)).1
        exact Nat.lt_succ_of_lt (ho.bound _ hacq h (.inl rfl))
  · intro h hchild
    rcases child_acquire.mp hchild with hold | ⟨rfl, hp⟩
    · exact ho.irrefl h hold
    · exact ho.fresh_not_mem kind (hparent _ hp)
  · intro h
    have hfresh : .release (kind, L.next) ∉ L.log := fun hmem => ho.fresh kind hmem rfl
    rw [← ho.live h]
    exact live_acquire hfresh

/-- An acquisition leaves the order of the chain as it was. -/
theorem order_acquire (ho : Owns L leaves chain) (kind : κ) :
    chain.Pairwise fun x y => ¬ Child (L.acquire kind ps).log x y := by
  refine ho.order.imp_of_mem ?_
  intro x y _ hy hxy hchild
  rcases child_acquire.mp hchild with hold | ⟨rfl, -⟩
  · exact hxy hold
  · exact ho.fresh_not_mem kind (List.mem_append_right _ hy)

/-- A new leaf, created from members of the chain. -/
theorem acquireLeaf (ho : Owns L leaves chain) (kind : κ) (hps : ∀ q ∈ ps, q ∈ chain) :
    Owns (L.acquire kind ps) ((kind, L.next) :: leaves) chain := by
  obtain ⟨hd, hb, hirr, hl⟩ := ho.acquire_log kind hps
  have hnodup := List.nodup_append.mp ho.nodup
  refine ⟨hd, hb, hirr, ?_, ?_, ?_, ?_⟩
  · exact List.nodup_cons.mpr ⟨ho.fresh_not_mem kind, ho.nodup⟩
  · intro h
    rw [hl h, List.cons_append, List.mem_cons]
  · intro h hmem c hchild
    rcases child_acquire.mp hchild with hold | ⟨-, hp⟩
    · rcases List.mem_cons.mp hmem with rfl | hmem
      · exact ho.fresh_not_parent kind c hold
      · exact ho.leaf h hmem c hold
    · -- parents are in the chain
      rcases List.mem_cons.mp hmem with rfl | hmem
      · exact ho.fresh_not_mem kind (List.mem_append_right _ (hps _ hp))
      · exact hnodup.2.2 h hmem h (hps h hp) rfl
  · exact ho.order_acquire kind

/-- A new head of the chain. -/
theorem acquireChain (ho : Owns L leaves chain) (kind : κ) (hps : ∀ q ∈ ps, q ∈ chain) :
    Owns (L.acquire kind ps) leaves ((kind, L.next) :: chain) := by
  obtain ⟨hd, hb, hirr, hl⟩ := ho.acquire_log kind hps
  have hnodup := List.nodup_append.mp ho.nodup
  have hperm : (leaves ++ (kind, L.next) :: chain).Perm ((kind, L.next) :: (leaves ++ chain)) :=
    List.perm_middle
  refine ⟨hd, hb, hirr, ?_, ?_, ?_, ?_⟩
  · rw [hperm.nodup_iff]
    exact List.nodup_cons.mpr ⟨ho.fresh_not_mem kind, ho.nodup⟩
  · intro h
    rw [hl h, hperm.mem_iff, List.mem_cons]
  · intro h hmem c hchild
    rcases child_acquire.mp hchild with hold | ⟨-, hp⟩
    · exact ho.leaf h hmem c hold
    · exact hnodup.2.2 h hmem h (hps h hp) rfl
  · refine List.pairwise_cons.mpr ⟨?_, ?_⟩
    · intro y hy hchild
      rcases child_acquire.mp hchild with hold | ⟨-, hp⟩
      · exact ho.fresh_not_parent kind y hold
      · exact ho.fresh_not_mem kind (List.mem_append_right _ (hps _ hp))
    · exact ho.order_acquire kind

theorem release_bound (ho : Owns L leaves chain) (hmem : h ∈ leaves ++ chain) :
    ∀ e ∈ (L.release h).log, ∀ h', e.Mentions h' → h'.2 < (L.release h).next := by
  intro e he h' hm
  rcases List.mem_append.mp he with he | he
  · exact ho.bound e he h' hm
  · rw [List.mem_singleton.mp he] at hm
    obtain rfl : h = h' := hm
    obtain ⟨ps, hacq⟩ := ((ho.live h).mpr hmem).1
    exact ho.bound _ hacq h (.inl rfl)

/-- A leaf is released. -/
theorem releaseLeaf (ho : Owns L (h :: leaves) chain) : Owns (L.release h) leaves chain := by
  have hmem : h ∈ h :: leaves ++ chain := List.mem_cons_self
  obtain ⟨hnot, hnodup⟩ := List.nodup_cons.mp ho.nodup
  refine ⟨?_, ho.release_bound hmem, ?_, hnodup, ?_, ?_, ?_⟩
  · refine ho.disciplined.release ((ho.live h).mpr hmem) ?_
    intro c hchild
    exact absurd hchild (ho.leaf h List.mem_cons_self c)
  · exact fun h' hchild => ho.irrefl h' (child_release.mp hchild)
  · intro h'
    refine live_release.trans ?_
    rw [ho.live h', List.cons_append, List.mem_cons]
    constructor
    · rintro ⟨rfl | hmem', hne⟩
      · exact absurd rfl hne
      · exact hmem'
    · intro hmem'
      exact ⟨.inr hmem', fun heq => hnot (heq ▸ hmem')⟩
  · intro h' hmem' c hchild
    exact ho.leaf h' (List.mem_cons_of_mem _ hmem') c (child_release.mp hchild)
  · exact ho.order.imp fun hxy hchild => hxy (child_release.mp hchild)

/-- With no leaves left, the head of the chain is released. -/
theorem releaseChain (ho : Owns L [] (h :: chain)) : Owns (L.release h) [] chain := by
  have hmem : h ∈ [] ++ h :: chain := List.mem_cons_self
  obtain ⟨hnot, hnodup⟩ := List.nodup_cons.mp ho.nodup
  obtain ⟨hhead, hrest⟩ := List.pairwise_cons.mp ho.order
  refine ⟨?_, ho.release_bound hmem, ?_, hnodup, ?_, ?_, ?_⟩
  · refine ho.disciplined.release ((ho.live h).mpr hmem) ?_
    intro c hchild
    -- a live child would be in the chain
    by_contra hrel
    obtain ⟨ps, hacq, hp⟩ := hchild
    have hc : c ∈ h :: chain := (ho.live c).mp ⟨⟨ps, hacq⟩, hrel⟩
    rcases List.mem_cons.mp hc with rfl | hc
    · exact ho.irrefl c ⟨ps, hacq, hp⟩
    · exact hhead c hc ⟨ps, hacq, hp⟩
  · exact fun h' hchild => ho.irrefl h' (child_release.mp hchild)
  · intro h'
    refine live_release.trans ?_
    rw [ho.live h', List.nil_append, List.nil_append, List.mem_cons]
    constructor
    · rintro ⟨rfl | hmem', hne⟩
      · exact absurd rfl hne
      · exact hmem'
    · intro hmem'
      exact ⟨.inr hmem', fun heq => hnot (heq ▸ hmem')⟩
  · rintro h' ⟨⟩
  · exact hrest.imp fun hxy hchild => hxy (child_release.mp hchild)

end Owns

/-! ### One handle of each kind -/

/-- A program that keeps at most one handle of each kind, in a field for it. -/
structure Holdings (κ : Type*) where
  ledger : Ledger κ
  field : κ → Option Nat

namespace Holdings

def start : Holdings κ := ⟨Ledger.empty, fun _ => none⟩

variable [DecidableEq κ]

/-- A new handle, created from nothing that is held. -/
def acquire (s : Holdings κ) (k : κ) : Holdings κ :=
  ⟨s.ledger.acquire k [], Function.update s.field k (some s.ledger.next)⟩

/-- Release the handle in a field and clear the field. -/
def release (s : Holdings κ) (k : κ) : Holdings κ :=
  match s.field k with
  | none => s
  | some n => ⟨s.ledger.release (k, n), Function.update s.field k none⟩

/-- The handles in the fields of the kinds `ks`. -/
def refs (s : Holdings κ) (ks : List κ) : List (κ × Nat) :=
  ks.filterMap fun k => (s.field k).map (Prod.mk k)

/-- Exactly the handles of the kinds `ks` are live. -/
structure Holds (s : Holdings κ) (ks : List κ) : Prop where
  nodup : ks.Nodup
  field_iff : ∀ k, (s.field k).isSome ↔ k ∈ ks
  owns : Owns s.ledger (s.refs ks) []

variable {s : Holdings κ} {k : κ} {ks ks' : List κ}

/-- The handles of other kinds do not depend on a field. -/
theorem refs_update (L : Ledger κ) (o : Option Nat) (hk : k ∉ ks) :
    refs ⟨L, Function.update s.field k o⟩ ks = s.refs ks := by
  unfold refs
  refine List.filterMap_congr ?_
  intro x hx
  have hne : x ≠ k := fun h => hk (h ▸ hx)
  show (Function.update s.field k o x).map _ = _
  rw [Function.update_of_ne hne]

omit [DecidableEq κ] in
theorem holds_start : (start : Holdings κ).Holds [] :=
  ⟨List.nodup_nil, fun _ => by simp [start], Owns.empty⟩

namespace Holds

theorem acquire (h : s.Holds ks) (hk : k ∉ ks) : (s.acquire k).Holds (k :: ks) := by
  refine ⟨List.nodup_cons.mpr ⟨hk, h.nodup⟩, ?_, ?_⟩
  · intro x
    show (Function.update s.field k (some s.ledger.next) x).isSome ↔ _
    rw [List.mem_cons]
    by_cases hx : x = k
    · simp [hx]
    · rw [Function.update_of_ne hx, h.field_iff]
      simp [hx]
  · have hrefs : (s.acquire k).refs (k :: ks) = (k, s.ledger.next) :: s.refs ks := by
      rw [← refs_update (s.ledger.acquire k []) (some s.ledger.next) hk]
      simp [refs, Holdings.acquire]
    rw [hrefs]
    exact h.owns.acquireLeaf k (by simp)

theorem release (h : s.Holds (k :: ks)) : (s.release k).Holds ks := by
  obtain ⟨hk, hks⟩ := List.nodup_cons.mp h.nodup
  obtain ⟨n, hn⟩ := Option.isSome_iff_exists.mp ((h.field_iff k).mpr List.mem_cons_self)
  have heq : s.release k = ⟨s.ledger.release (k, n), Function.update s.field k none⟩ := by
    unfold Holdings.release
    rw [hn]
  rw [heq]
  refine ⟨hks, ?_, ?_⟩
  · intro x
    show (Function.update s.field k none x).isSome ↔ _
    by_cases hx : x = k
    · simp [hx, hk]
    · rw [Function.update_of_ne hx, h.field_iff, List.mem_cons]
      simp [hx]
  · rw [refs_update _ _ hk]
    have howns := h.owns
    rw [show s.refs (k :: ks) = (k, n) :: s.refs ks by simp [refs, hn]] at howns
    exact howns.releaseLeaf

/-- Releasing a field that is not set does nothing. -/
theorem release_of_not_mem (h : s.Holds ks) (hk : k ∉ ks) : s.release k = s := by
  have hnone : s.field k = none :=
    Option.not_isSome_iff_eq_none.mp fun hsome => hk ((h.field_iff k).mp hsome)
  unfold Holdings.release
  rw [hnone]

omit [DecidableEq κ] in
/-- Handles are released in any order. -/
theorem perm (h : s.Holds ks) (hperm : ks.Perm ks') : s.Holds ks' :=
  ⟨hperm.nodup_iff.mp h.nodup, fun k => (h.field_iff k).trans hperm.mem_iff,
    h.owns.perm (hperm.filterMap _)⟩

/-- Releasing a field takes its handle away, if there is one. -/
theorem release_erase (h : s.Holds ks) (k : κ) : (s.release k).Holds (ks.erase k) := by
  by_cases hk : k ∈ ks
  · exact (h.perm (List.perm_cons_erase hk)).release
  · rw [h.release_of_not_mem hk, List.erase_of_not_mem hk]
    exact h

omit [DecidableEq κ] in
/-- With nothing held, nothing is live. -/
theorem not_live (h : s.Holds []) (x : κ × Nat) : ¬ Live s.ledger.log x := by
  rw [h.owns.live x]
  exact List.not_mem_nil

end Holds

end Holdings

end DirectStorage
