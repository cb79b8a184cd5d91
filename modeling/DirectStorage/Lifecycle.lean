/-
DirectStorage/Lifecycle.lean

The life of objects that are created by one party, handed over to others,
completed once and then released.

`Books` are the accounts of such a system, as multisets of objects: who still
has what it created (`owned`), what was handed over so far (`accepted`), what
of it lies somewhere and waits (`held`), what was completed (`done`), what is
completed and not released (`closing`) and what is allocated (`live`).  The
accounts do not say where an object lies, so moving it from place to place
does not change them.  `Books.Step` is the list of what may happen to an
object.

The parties are often the members of a list of processes, and an account is
the set of those at certain program points: `positions`.

Main results: `Books.Step` keeps the accounts `Balanced`, and in balanced
books an object is completed at most once (`Balanced.count_done_le`), is
completed exactly once when nothing waits (`Balanced.count_done_of_held_eq_zero`)
and waits in one place while it is not completed (`Balanced.count_held`).
-/
import Mathlib.Data.Finset.Card
import Mathlib.Data.Finset.Insert
import Mathlib.Data.Finset.Range
import Mathlib.Data.Finset.Filter
import Mathlib.Data.Multiset.AddSub

namespace DirectStorage

/-! ### Accounts -/

/-- The accounts of the objects `ι`. -/
@[ext]
structure Books (ι : Type*) where
  owned : Multiset ι
  accepted : Multiset ι
  held : Multiset ι
  done : Multiset ι
  closing : Multiset ι
  live : Multiset ι

namespace Books

variable {ι : Type*} [DecidableEq ι] {b b' : Books ι} {x : ι}

/-- What may happen: nothing that the accounts see, or one object is created,
given up by its creator, handed over, completed or released. -/
inductive Step (b : Books ι) : Books ι → Prop
  | keep : Step b b
  | create (x : ι) : x ∉ b.owned → x ∉ b.accepted →
      Step b { b with owned := x ::ₘ b.owned, live := x ::ₘ b.live }
  | discard (x : ι) (o : Multiset ι) : b.owned = x ::ₘ o →
      Step b { b with owned := o, live := b.live.erase x }
  | accept (x : ι) (o : Multiset ι) : b.owned = x ::ₘ o →
      Step b { b with owned := o, accepted := x ::ₘ b.accepted, held := x ::ₘ b.held }
  | complete (x : ι) (h : Multiset ι) : b.held = x ::ₘ h →
      Step b { b with held := h, done := x ::ₘ b.done, closing := x ::ₘ b.closing }
  | release (x : ι) (c : Multiset ι) : b.closing = x ::ₘ c →
      Step b { b with closing := c, live := b.live.erase x }

/-- What was handed over waits or is completed, what is allocated is with its
creator, waits or is about to be released, and no object comes twice. -/
structure Balanced (b : Books ι) : Prop where
  accepted_eq : b.accepted = b.held + b.done
  live_eq : b.live = b.owned + b.held + b.closing
  once : (b.owned + b.accepted).Nodup

/-- **Every step keeps the accounts balanced.** -/
theorem Balanced.step (hb : b.Balanced) (h : b.Step b') : b'.Balanced := by
  obtain ⟨haccepted, hlive, honce⟩ := hb
  cases h with
  | keep => exact ⟨haccepted, hlive, honce⟩
  | create x howned hacc =>
      refine ⟨haccepted, ?_, ?_⟩
      · show x ::ₘ b.live = x ::ₘ b.owned + b.held + b.closing
        rw [hlive]
        simp only [Multiset.cons_add]
      · show (x ::ₘ b.owned + b.accepted).Nodup
        rw [Multiset.cons_add]
        refine Multiset.nodup_cons.mpr ⟨?_, honce⟩
        simp [howned, hacc]
  | discard x o ho =>
      refine ⟨haccepted, ?_, ?_⟩
      · show b.live.erase x = o + b.held + b.closing
        rw [hlive, ho]
        simp only [Multiset.cons_add, Multiset.erase_cons_head]
      · rw [ho, Multiset.cons_add] at honce
        exact (Multiset.nodup_cons.mp honce).2
  | accept x o ho =>
      refine ⟨?_, ?_, ?_⟩
      · show x ::ₘ b.accepted = x ::ₘ b.held + b.done
        rw [haccepted, Multiset.cons_add]
      · show b.live = o + x ::ₘ b.held + b.closing
        rw [hlive, ho]
        simp only [Multiset.cons_add, Multiset.add_cons]
      · show (o + x ::ₘ b.accepted).Nodup
        rw [ho, Multiset.cons_add] at honce
        rwa [Multiset.add_cons]
  | complete x w hw =>
      refine ⟨?_, ?_, honce⟩
      · show b.accepted = w + x ::ₘ b.done
        rw [haccepted, hw, Multiset.cons_add, Multiset.add_cons]
      · show b.live = b.owned + w + x ::ₘ b.closing
        rw [hlive, hw]
        simp only [Multiset.cons_add, Multiset.add_cons]
  | release x c hc =>
      refine ⟨haccepted, ?_, honce⟩
      show b.live.erase x = b.owned + b.held + c
      rw [hlive, hc]
      simp only [Multiset.add_cons, Multiset.erase_cons_head]

theorem Balanced.count_accepted_le (hb : b.Balanced) (x : ι) : b.accepted.count x ≤ 1 :=
  Multiset.nodup_iff_count_le_one.mp (Multiset.nodup_of_le (Multiset.le_add_left _ _) hb.once) x

theorem Balanced.count_eq (hb : b.Balanced) (x : ι) :
    b.accepted.count x = b.held.count x + b.done.count x := by
  rw [hb.accepted_eq, Multiset.count_add]

/-- **No object is completed twice.** -/
theorem Balanced.count_done_le (hb : b.Balanced) (x : ι) : b.done.count x ≤ 1 := by
  have h := hb.count_eq x
  have hle := hb.count_accepted_le x
  omega

theorem Balanced.count_done_of_not_mem (hb : b.Balanced) (h : x ∉ b.accepted) :
    b.done.count x = 0 := by
  have heq := hb.count_eq x
  rw [Multiset.count_eq_zero_of_notMem h] at heq
  omega

/-- **When nothing waits, all that was handed over is completed.** -/
theorem Balanced.count_done_of_held_eq_zero (hb : b.Balanced) (hheld : b.held = 0)
    (h : x ∈ b.accepted) : b.done.count x = 1 := by
  have heq := hb.count_eq x
  have hle := hb.count_accepted_le x
  have hpos := Multiset.count_pos.mpr h
  rw [hheld, Multiset.count_zero] at heq
  omega

/-- **What was handed over and is not completed waits, once.** -/
theorem Balanced.count_held (hb : b.Balanced) (h : x ∈ b.accepted) (hdone : x ∉ b.done) :
    b.held.count x = 1 := by
  have heq := hb.count_eq x
  have hle := hb.count_accepted_le x
  have hpos := Multiset.count_pos.mpr h
  rw [Multiset.count_eq_zero_of_notMem hdone] at heq
  omega

end Books

/-- The order of arrival does not matter to an account. -/
theorem coe_append_singleton {ι : Type*} (l : List ι) (x : ι) :
    (↑(l ++ [x]) : Multiset ι) = x ::ₘ ↑l :=
  Multiset.coe_eq_coe.mpr (List.perm_append_singleton x l)

/-! ### Processes at a program point -/

variable {α : Type*}

/-- The positions in `l` of the members that satisfy `p`. -/
def positions (p : α → Bool) (l : List α) : Finset Nat :=
  {c ∈ Finset.range l.length | (l[c]?).any p}

variable {p : α → Bool} {l : List α} {a a' : α} {c : Nat}

theorem mem_positions : c ∈ positions p l ↔ ∃ a, l[c]? = some a ∧ p a := by
  simp only [positions, Finset.mem_filter, Finset.mem_range, Option.any_eq_true]
  constructor
  · rintro ⟨-, h⟩
    exact h
  · rintro ⟨a, ha, hp⟩
    exact ⟨(List.getElem?_eq_some_iff.mp ha).1, a, ha, hp⟩

theorem mem_positions_of_getElem? (h : l[c]? = some a) : c ∈ positions p l ↔ p a := by
  rw [mem_positions, h]
  simp

theorem getElem?_set_eq (h : l[c]? = some a) (d : Nat) :
    (l.set c a')[d]? = if d = c then some a' else l[d]? := by
  have hlt := (List.getElem?_eq_some_iff.mp h).1
  split_ifs with hd
  · rw [hd, List.getElem?_set_self hlt]
  · rw [List.getElem?_set_ne (Ne.symm hd)]

/-- A member that moves between points that are counted alike. -/
theorem positions_set (h : l[c]? = some a) (hp : p a' = p a) :
    positions p (l.set c a') = positions p l := by
  ext d
  simp only [mem_positions, getElem?_set_eq h]
  split_ifs with hd
  · subst hd
    simp [h, hp]
  · rfl

/-- A member that moves to a counted point. -/
theorem positions_set_enter (h : l[c]? = some a) (hout : p a = false) (hin : p a' = true) :
    (positions p (l.set c a')).val = c ::ₘ (positions p l).val := by
  have hnot : c ∉ positions p l := by
    rw [mem_positions_of_getElem? h, hout]
    simp
  rw [← Finset.insert_val_of_notMem hnot]
  congr 1
  ext d
  rw [Finset.mem_insert, mem_positions, getElem?_set_eq h]
  split_ifs with hd
  · simp [hd, hin]
  · simp [hd, mem_positions]

/-- A member that leaves a counted point. -/
theorem positions_set_leave (a' : α) (h : l[c]? = some a) (hin : p a = true)
    (hout : p a' = false) :
    (positions p l).val = c ::ₘ (positions p (l.set c a')).val := by
  have hlt := (List.getElem?_eq_some_iff.mp h).1
  have hback : (l.set c a').set c a = l := by
    rw [List.set_set]
    apply List.ext_getElem?
    intro d
    rw [getElem?_set_eq h]
    split_ifs with hd
    · rw [hd, h]
    · rfl
  -- going back to the counted point is `positions_set_enter`
  have henter : (positions p ((l.set c a').set c a)).val =
      c ::ₘ (positions p (l.set c a')).val :=
    positions_set_enter (List.getElem?_set_self hlt) hout hin
  rwa [hback] at henter

theorem positions_append (h : p a = false) : positions p (l ++ [a]) = positions p l := by
  ext d
  simp only [mem_positions]
  rcases Nat.lt_trichotomy d l.length with hd | rfl | hd
  · rw [List.getElem?_append_left hd]
  · simp [h]
  · rw [List.getElem?_eq_none (by simp; omega), List.getElem?_eq_none (by omega)]

end DirectStorage
