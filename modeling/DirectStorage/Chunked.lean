/-
DirectStorage/Chunked.lean

Byte streams that are delivered and accepted in pieces.

A `Source` is a stream that ends, together with a schedule of what the next
calls of `read` do: hand out at most so many elements, or fail with an error
code.  A `Sink` is the same for `write`.  When the schedule is used up, a call
moves everything it is asked for.  A call that is asked for at least one
element and does not fail moves at least one, unless the stream has ended.

`readLoop` and `writeLoop` are the usual loops around such calls: go on until
the whole length is moved, retry after an error that `retry` accepts, and give
up at the end of the stream or at any other error.

Main results: on a schedule whose errors are all retried (`Quiet`), the loops
do not see the schedule at all.  `readLoop_quiet` says that exactly the next
`want` elements are taken, or what is left of the stream; `writeLoop_quiet`
that exactly the given elements are appended.  `readLoop_conserves` holds for
every schedule: what was read and what is left are the stream; and
`readLoop_calls` gives the results of the single calls behind a read loop.
-/
import Mathlib.Tactic.Common

namespace DirectStorage

/-- An error code; they are all positive. -/
structure Errno where
  code : Int
  pos : 0 < code
  deriving DecidableEq, Repr

/-- What one call does: move at most `n` elements, or fail with a code. -/
inductive IoEvent where
  | chunk (n : Nat)
  | error (e : Errno)
  deriving DecidableEq, Repr

/-- A stream to read from, and what the next calls will do. -/
structure Source (α : Type*) where
  data : List α
  sched : List IoEvent
  deriving DecidableEq, Repr

/-- What has been written, and what the next calls will do. -/
structure Sink (α : Type*) where
  out : List α
  sched : List IoEvent
  deriving DecidableEq, Repr

variable {α : Type*}

/-- How many of `want` elements the next call may move, and the schedule of
the calls after it. -/
def quota (sched : List IoEvent) (want : Nat) : Except Errno Nat × List IoEvent :=
  match sched with
  | [] => (.ok want, [])
  | .error e :: rest => (.error e, rest)
  | .chunk n :: rest => (.ok (min want (max 1 n)), rest)

/-- One call of `read` for at most `want` elements; no element stands for the
end of the stream. -/
def Source.read (src : Source α) (want : Nat) : Except Errno (List α) × Source α :=
  match quota src.sched want with
  | (.error e, rest) => (.error e, ⟨src.data, rest⟩)
  | (.ok k, rest) => (.ok (src.data.take k), ⟨src.data.drop k, rest⟩)

/-- One call of `write`: how many elements were taken. -/
def Sink.write (snk : Sink α) (bs : List α) : Except Errno Nat × Sink α :=
  match quota snk.sched bs.length with
  | (.error e, rest) => (.error e, ⟨snk.out, rest⟩)
  | (.ok k, rest) => (.ok k, ⟨snk.out ++ bs.take k, rest⟩)

/-! ### What one call can do -/

/-- A call fails and uses up its event, or may move between one and `want`
elements. -/
theorem quota_cases (sched : List IoEvent) {want : Nat} (hw : 0 < want) :
    (∃ e rest, sched = .error e :: rest ∧ quota sched want = (.error e, rest)) ∨
    (∃ k rest, 0 < k ∧ k ≤ want ∧ rest <:+ sched ∧ quota sched want = (.ok k, rest)) := by
  rcases sched with - | ⟨- | -, rest⟩
  · exact .inr ⟨want, [], hw, Nat.le_refl _, List.nil_suffix, rfl⟩
  · rename_i n
    exact .inr ⟨min want (max 1 n), rest, by omega, by omega, List.suffix_cons _ _, rfl⟩
  · rename_i e
    exact .inl ⟨e, rest, rfl, rfl⟩

theorem Source.read_cases (src : Source α) {want : Nat} (hw : 0 < want) :
    (∃ e rest, src.sched = .error e :: rest ∧
      src.read want = (.error e, ⟨src.data, rest⟩)) ∨
    (∃ k rest, 0 < k ∧ k ≤ want ∧ rest <:+ src.sched ∧
      src.read want = (.ok (src.data.take k), ⟨src.data.drop k, rest⟩)) := by
  rcases quota_cases src.sched hw with ⟨e, rest, hs, hq⟩ | ⟨k, rest, h0, hk, hsuf, hq⟩
  · exact .inl ⟨e, rest, hs, by simp [Source.read, hq]⟩
  · exact .inr ⟨k, rest, h0, hk, hsuf, by simp [Source.read, hq]⟩

theorem Sink.write_cases (snk : Sink α) {bs : List α} (hbs : 0 < bs.length) :
    (∃ e rest, snk.sched = .error e :: rest ∧
      snk.write bs = (.error e, ⟨snk.out, rest⟩)) ∨
    (∃ k rest, 0 < k ∧ k ≤ bs.length ∧ rest <:+ snk.sched ∧
      snk.write bs = (.ok k, ⟨snk.out ++ bs.take k, rest⟩)) := by
  rcases quota_cases snk.sched hbs with ⟨e, rest, hs, hq⟩ | ⟨k, rest, h0, hk, hsuf, hq⟩
  · exact .inl ⟨e, rest, hs, by simp [Sink.write, hq]⟩
  · exact .inr ⟨k, rest, h0, hk, hsuf, by simp [Sink.write, hq]⟩

/-! ### The loops -/

/-- Why a read loop ended. -/
inductive ReadEnd where
  | full
  | eof
  | failed (e : Errno)
  deriving DecidableEq, Repr

/-- Read until `want` elements are there: what was read, why the loop ended
and the source afterwards. -/
def readLoop (retry : Errno → Bool) (src : Source α) (want : Nat) :
    List α × ReadEnd × Source α :=
  if _hw : want = 0 then ([], .full, src)
  else
    match _h : src.read want with
    | (.error e, src') =>
        if retry e then readLoop retry src' want else ([], .failed e, src')
    | (.ok [], src') => ([], .eof, src')
    | (.ok (b :: bs), src') =>
        let r := readLoop retry src' (want - (b :: bs).length)
        (b :: bs ++ r.1, r.2)
termination_by want + src.sched.length
decreasing_by
  all_goals
    rcases src.read_cases (Nat.pos_of_ne_zero _hw) with
      ⟨e', rest, hs, hr⟩ | ⟨k, rest, h0, hk, hsuf, hr⟩ <;>
    simp only [_h, Prod.mk.injEq, reduceCtorEq, false_and] at hr
  · simp [hr.2, hs]
  · have := hsuf.length_le
    simp only [hr.2, List.length_cons]
    omega

/-- Write all of `bs`: the error the loop gave up at, if any, and the sink
afterwards. -/
def writeLoop (retry : Errno → Bool) (snk : Sink α) (bs : List α) : Option Errno × Sink α :=
  if _hbs : bs.length = 0 then (none, snk)
  else
    match _h : snk.write bs with
    | (.error e, snk') => if retry e then writeLoop retry snk' bs else (some e, snk')
    | (.ok k, snk') => writeLoop retry snk' (bs.drop k)
termination_by bs.length + snk.sched.length
decreasing_by
  all_goals
    rcases snk.write_cases (Nat.pos_of_ne_zero _hbs) with
      ⟨e', rest, hs, hr⟩ | ⟨k', rest, h0, hk, hsuf, hr⟩ <;>
    simp only [_h, Prod.mk.injEq, reduceCtorEq, false_and, Except.ok.injEq] at hr
  · simp [hr.2, hs]
  · have := hsuf.length_le
    simp only [hr.1, hr.2, List.length_drop]
    omega

/-! ### What the loops do on any schedule -/

/-- A successful call, seen from its result: it took the first elements of
the stream, and none of them only at its end. -/
theorem Source.read_ok {src src' : Source α} {want : Nat} {bs : List α} (hw : want ≠ 0)
    (h : src.read want = (.ok bs, src')) :
    src.data = bs ++ src'.data ∧ bs.length ≤ want ∧ (bs = [] → src.data = []) ∧
      src'.sched <:+ src.sched := by
  rcases src.read_cases (Nat.pos_of_ne_zero hw) with ⟨e, rest, -, hr⟩ | ⟨k, rest, h0, hk, hsuf, hr⟩
  · rw [h] at hr
    simp at hr
  · rw [h, Prod.mk.injEq, Except.ok.injEq] at hr
    obtain ⟨rfl, rfl⟩ := hr
    refine ⟨(List.take_append_drop k src.data).symm, ?_, ?_, hsuf⟩
    · rw [List.length_take]
      omega
    · intro hnil
      exact (List.take_eq_nil_iff.mp hnil).resolve_left (by omega)

/-- A failed call, seen from its result. -/
theorem Source.read_error {src src' : Source α} {want : Nat} {e : Errno} (hw : want ≠ 0)
    (h : src.read want = (.error e, src')) :
    src.sched = .error e :: src'.sched ∧ src'.data = src.data := by
  rcases src.read_cases (Nat.pos_of_ne_zero hw) with ⟨e', rest, hs, hr⟩ | ⟨k, rest, -, -, -, hr⟩
  · rw [h, Prod.mk.injEq, Except.error.injEq] at hr
    obtain ⟨rfl, rfl⟩ := hr
    exact ⟨hs, rfl⟩
  · rw [h] at hr
    simp at hr

/-- A successful `write`, seen from its result. -/
theorem Sink.write_ok {snk snk' : Sink α} {bs : List α} {k : Nat} (hbs : bs.length ≠ 0)
    (h : snk.write bs = (.ok k, snk')) :
    snk'.out = snk.out ++ bs.take k ∧ snk'.sched <:+ snk.sched := by
  rcases snk.write_cases (Nat.pos_of_ne_zero hbs) with ⟨e, rest, -, hr⟩ | ⟨k', rest, -, -, hsuf, hr⟩
  · rw [h] at hr
    simp at hr
  · rw [h, Prod.mk.injEq, Except.ok.injEq] at hr
    obtain ⟨rfl, rfl⟩ := hr
    exact ⟨rfl, hsuf⟩

/-- A failed `write`, seen from its result. -/
theorem Sink.write_error {snk snk' : Sink α} {bs : List α} {e : Errno} (hbs : bs.length ≠ 0)
    (h : snk.write bs = (.error e, snk')) :
    snk.sched = .error e :: snk'.sched ∧ snk'.out = snk.out := by
  rcases snk.write_cases (Nat.pos_of_ne_zero hbs) with ⟨e', rest, hs, hr⟩ | ⟨k, rest, -, -, -, hr⟩
  · rw [h, Prod.mk.injEq, Except.error.injEq] at hr
    obtain ⟨rfl, rfl⟩ := hr
    exact ⟨hs, rfl⟩
  · rw [h] at hr
    simp at hr

/-- **Nothing is lost or reordered**: what a read loop returns, followed by
what it leaves, is the stream it started from; and it is full exactly when
all of `want` is there. -/
theorem readLoop_conserves (retry : Errno → Bool) (src : Source α) (want : Nat) :
    (readLoop retry src want).1 ++ (readLoop retry src want).2.2.data = src.data ∧
    ((readLoop retry src want).2.1 = .full ↔ (readLoop retry src want).1.length = want) := by
  fun_induction readLoop retry src want with
  | case1 src => simp
  | case2 src want hw e src' hread hretry ih =>
      rw [(Source.read_error hw hread).2] at ih
      exact ih
  | case3 src want hw e src' hread hretry =>
      refine ⟨(Source.read_error hw hread).2, ?_⟩
      simp only [reduceCtorEq, List.length_nil, false_iff]
      exact fun h => hw h.symm
  | case4 src want hw src' hread =>
      refine ⟨(Source.read_ok hw hread).1.symm, ?_⟩
      simp only [reduceCtorEq, List.length_nil, false_iff]
      exact fun h => hw h.symm
  | case5 src want hw b bs src' hread r ih =>
      obtain ⟨hdata, hlen, -, -⟩ := Source.read_ok hw hread
      refine ⟨?_, ?_⟩
      · rw [List.append_assoc, ih.1, hdata]
      · have hfull : r.2.1 = .full ↔ r.1.length = want - (b :: bs).length := ih.2
        show r.2.1 = .full ↔ (b :: bs ++ r.1).length = want
        rw [hfull, List.length_append]
        omega

theorem readLoop_length_le (retry : Errno → Bool) (src : Source α) (want : Nat) :
    (readLoop retry src want).1.length ≤ want := by
  fun_induction readLoop retry src want with
  | case1 src => simp
  | case2 src want hw e src' hread hretry ih => exact ih
  | case3 src want hw e src' hread hretry => exact Nat.zero_le _
  | case4 src want hw src' hread => exact Nat.zero_le _
  | case5 src want hw b bs src' hread r ih =>
      have hlen := (Source.read_ok hw hread).2.1
      have hrest : r.1.length ≤ want - (b :: bs).length := ih
      rw [List.length_append]
      omega

/-- At the end of the stream nothing is left of it. -/
theorem readLoop_eof (retry : Errno → Bool) (src : Source α) (want : Nat) :
    (readLoop retry src want).2.1 = .eof → (readLoop retry src want).2.2.data = [] := by
  fun_induction readLoop retry src want with
  | case1 src => intro h; cases h
  | case2 src want hw e src' hread hretry ih => exact ih
  | case3 src want hw e src' hread hretry => intro h; cases h
  | case4 src want hw src' hread =>
      intro _
      obtain ⟨hdata, -, hnil, -⟩ := Source.read_ok hw hread
      rw [hnil rfl] at hdata
      exact hdata.symm
  | case5 src want hw b bs src' hread r ih => exact ih

/-- A write loop sends a beginning of `bs`. -/
theorem writeLoop_prefix (retry : Errno → Bool) (snk : Sink α) (bs : List α) :
    ∃ sent, sent <+: bs ∧ (writeLoop retry snk bs).2.out = snk.out ++ sent := by
  fun_induction writeLoop retry snk bs with
  | case1 snk bs hbs => exact ⟨[], List.nil_prefix, (List.append_nil _).symm⟩
  | case2 snk bs hbs e snk' hwrite hretry ih =>
      rw [(Sink.write_error hbs hwrite).2] at ih
      exact ih
  | case3 snk bs hbs e snk' hwrite hretry =>
      refine ⟨[], List.nil_prefix, ?_⟩
      rw [(Sink.write_error hbs hwrite).2, List.append_nil]
  | case4 snk bs hbs k snk' hwrite ih =>
      obtain ⟨sent, hsent, hout⟩ := ih
      refine ⟨bs.take k ++ sent, ?_, ?_⟩
      · have happend := (List.prefix_append_right_inj (bs.take k)).mpr hsent
        rwa [List.take_append_drop] at happend
      · rw [hout, (Sink.write_ok hbs hwrite).1, List.append_assoc]

/-- A write loop that does not fail sends all of it. -/
theorem writeLoop_all (retry : Errno → Bool) (snk : Sink α) (bs : List α) :
    (writeLoop retry snk bs).1 = none → (writeLoop retry snk bs).2.out = snk.out ++ bs := by
  fun_induction writeLoop retry snk bs with
  | case1 snk bs hbs =>
      intro _
      rw [List.eq_nil_of_length_eq_zero hbs, List.append_nil]
  | case2 snk bs hbs e snk' hwrite hretry ih =>
      rw [(Sink.write_error hbs hwrite).2] at ih
      exact ih
  | case3 snk bs hbs e snk' hwrite hretry =>
      intro hnone
      cases hnone
  | case4 snk bs hbs k snk' hwrite ih =>
      intro hnone
      rw [ih hnone, (Sink.write_ok hbs hwrite).1, List.append_assoc, List.take_append_drop]

/-! ### The calls a read loop makes -/

/-- The elements that calls of `read` with these results have brought in. -/
def received (calls : List (Except Errno (List α))) : List α :=
  calls.flatMap fun r => match r with
    | .ok bs => bs
    | .error _ => []

/-- The results of consecutive calls of `read`, each for what is still missing
of `want`. -/
inductive Source.Calls : Source α → Nat → List (Except Errno (List α)) → Source α → Prop
  | nil {src : Source α} {want : Nat} : Calls src want [] src
  | cons {src src₁ src₂ : Source α} {want : Nat} {r : Except Errno (List α)}
      {rs : List (Except Errno (List α))} (hread : src.read want = (r, src₁))
      (hrest : Calls src₁ (want - (received [r]).length) rs src₂) :
      Calls src want (r :: rs) src₂

/-- A read loop goes on after some elements and after an error it retries. -/
def GoesOn (retry : Errno → Bool) : Except Errno (List α) → Prop
  | .ok bs => bs ≠ []
  | .error e => retry e = true

/-- How the end of a read loop shows in the results of its calls. -/
def EndedBy (retry : Errno → Bool) (calls : List (Except Errno (List α))) : ReadEnd → Prop
  | .full => ∀ r ∈ calls, GoesOn retry r
  | .eof => ∃ before, calls = before ++ [.ok []] ∧ ∀ r ∈ before, GoesOn retry r
  | .failed e => ∃ before, calls = before ++ [.error e] ∧ retry e = false ∧
      ∀ r ∈ before, GoesOn retry r

theorem EndedBy.cons {retry : Errno → Bool} {r : Except Errno (List α)}
    {calls : List (Except Errno (List α))} {why : ReadEnd} (hr : GoesOn retry r)
    (h : EndedBy retry calls why) : EndedBy retry (r :: calls) why := by
  cases why with
  | full => exact List.forall_mem_cons.mpr ⟨hr, h⟩
  | eof =>
      obtain ⟨before, rfl, hbefore⟩ := h
      exact ⟨r :: before, rfl, List.forall_mem_cons.mpr ⟨hr, hbefore⟩⟩
  | failed e =>
      obtain ⟨before, rfl, he, hbefore⟩ := h
      exact ⟨r :: before, rfl, he, List.forall_mem_cons.mpr ⟨hr, hbefore⟩⟩

/-- **What a read loop returns is what its calls brought in**, and it ends when
it has all, at the end of the stream, or at the first error it does not retry. -/
theorem readLoop_calls (retry : Errno → Bool) (src : Source α) (want : Nat) :
    ∃ calls, src.Calls want calls (readLoop retry src want).2.2 ∧
      received calls = (readLoop retry src want).1 ∧
      EndedBy retry calls (readLoop retry src want).2.1 := by
  fun_induction readLoop retry src want with
  | case1 src => exact ⟨[], .nil, rfl, List.forall_mem_nil _⟩
  | case2 src want hw e src' hread hretry ih =>
      obtain ⟨calls, hcalls, hgot, hend⟩ := ih
      exact ⟨.error e :: calls, .cons hread hcalls, hgot, hend.cons hretry⟩
  | case3 src want hw e src' hread hretry =>
      refine ⟨[.error e], .cons hread .nil, rfl, [], rfl, ?_, List.forall_mem_nil _⟩
      exact Bool.eq_false_iff.mpr hretry
  | case4 src want hw src' hread =>
      exact ⟨[.ok []], .cons hread .nil, rfl, [], rfl, List.forall_mem_nil _⟩
  | case5 src want hw b bs src' hread r ih =>
      obtain ⟨calls, hcalls, hgot, hend⟩ := ih
      refine ⟨.ok (b :: bs) :: calls, .cons hread ?_, ?_, hend.cons (List.cons_ne_nil b bs)⟩
      · have hlen : (received [Except.ok (b :: bs)]).length = (b :: bs).length :=
          congrArg List.length (List.append_nil (b :: bs))
        rw [hlen]
        exact hcalls
      · show (b :: bs) ++ received calls = _
        rw [hgot]

/-! ### What the loops do on a quiet schedule -/

/-- Every error the schedule holds is retried. -/
def Quiet (retry : Errno → Bool) (sched : List IoEvent) : Prop :=
  ∀ e, .error e ∈ sched → retry e = true

theorem Quiet.suffix {retry : Errno → Bool} {s t : List IoEvent} (h : Quiet retry t)
    (hst : s <:+ t) : Quiet retry s :=
  fun e he => h e (hst.subset he)

/-- **A quiet read loop does not see the schedule**: it takes the next `want`
elements, or all that are left. -/
theorem readLoop_quiet {retry : Errno → Bool} {src : Source α} (want : Nat)
    (hq : Quiet retry src.sched) :
    ∃ rest, Quiet retry rest ∧ readLoop retry src want =
      (src.data.take want, if want ≤ src.data.length then .full else .eof,
        ⟨src.data.drop want, rest⟩) := by
  fun_induction readLoop retry src want with
  | case1 src => exact ⟨src.sched, hq, by simp⟩
  | case2 src want hw e src' hread hretry ih =>
      obtain ⟨hs, hd⟩ := Source.read_error hw hread
      rw [hs] at hq
      rw [hd] at ih
      exact ih (hq.suffix (List.suffix_cons _ _))
  | case3 src want hw e src' hread hretry =>
      obtain ⟨hs, -⟩ := Source.read_error hw hread
      rw [hs] at hq
      exact absurd (hq e List.mem_cons_self) hretry
  | case4 src want hw src' hread =>
      obtain ⟨hdata, -, hnil, hsuf⟩ := Source.read_ok hw hread
      refine ⟨src'.sched, hq.suffix hsuf, ?_⟩
      rw [hnil rfl] at hdata ⊢
      obtain ⟨d, sch⟩ := src'
      obtain rfl : [] = d := hdata
      simp [hw]
  | case5 src want hw b bs src' hread r ih =>
      obtain ⟨hdata, hlen, -, hsuf⟩ := Source.read_ok hw hread
      obtain ⟨rest, hrest, hr⟩ := ih (hq.suffix hsuf)
      refine ⟨rest, hrest, ?_⟩
      have htake : src.data.take want = b :: bs ++ src'.data.take (want - (b :: bs).length) := by
        rw [hdata, List.take_append, List.take_of_length_le hlen]
      have hdrop : src.data.drop want = src'.data.drop (want - (b :: bs).length) := by
        rw [hdata, List.drop_append, List.drop_of_length_le hlen, List.nil_append]
      have hfull : want ≤ src.data.length ↔ want - (b :: bs).length ≤ src'.data.length := by
        rw [hdata, List.length_append]
        omega
      simp only [r, hr, htake, hdrop, hfull]

/-! ### Writing -/

/-- **A quiet write loop does not see the schedule**: it appends all of
`bs`. -/
theorem writeLoop_quiet {retry : Errno → Bool} {snk : Sink α} (bs : List α)
    (hq : Quiet retry snk.sched) :
    ∃ rest, Quiet retry rest ∧ writeLoop retry snk bs = (none, ⟨snk.out ++ bs, rest⟩) := by
  fun_induction writeLoop retry snk bs with
  | case1 snk bs hbs =>
      obtain rfl := List.eq_nil_of_length_eq_zero hbs
      exact ⟨snk.sched, hq, by simp⟩
  | case2 snk bs hbs e snk' hwrite hretry ih =>
      obtain ⟨hs, hout⟩ := Sink.write_error hbs hwrite
      rw [hs] at hq
      rw [hout] at ih
      exact ih (hq.suffix (List.suffix_cons _ _))
  | case3 snk bs hbs e snk' hwrite hretry =>
      obtain ⟨hs, -⟩ := Sink.write_error hbs hwrite
      rw [hs] at hq
      exact absurd (hq e List.mem_cons_self) hretry
  | case4 snk bs hbs k snk' hwrite ih =>
      obtain ⟨hout, hsuf⟩ := Sink.write_ok hbs hwrite
      obtain ⟨rest', hrest', heq⟩ := ih (hq.suffix hsuf)
      refine ⟨rest', hrest', ?_⟩
      rw [heq, hout, List.append_assoc, List.take_append_drop]

end DirectStorage
