/-
DirectStorage/FullIoExact.lean

What the three copies of `read_full` and `write_full` return, for every
schedule of `read` and `write` results.

The daemon, the control server and the control client each have the two
functions; the `write_full`s are the same, and so are the `read_full`s but for
one value, which the client returns at the end of the stream.  A schedule holds
any number of short counts and errors in any order, and it is finite: `EINTR` is
seen finitely often, and the loops end.

What is returned is read off the results of the single `read` calls, which come
with the outcome (`Source.Calls`): the last of them is 0 when the stream has
ended and an error when one was not retried.

Main result: `fullIo_exact`.
-/
import DirectStorage.CtrlClient

namespace DirectStorage

variable {src : Source UInt8} {len : Nat} {calls : List (Except Errno (List UInt8))}

/-! ### The outcome of `read_full` -/

/-- The last call of `read` has returned 0: the stream has ended. -/
def StreamEnded (calls : List (Except Errno (List UInt8))) : Prop :=
  calls.getLast? = some (.ok [])

/-- The last call of `read` has failed with `e`, which is not `EINTR`. -/
def ReadFailed (calls : List (Except Errno (List UInt8))) (e : Errno) : Prop :=
  calls.getLast? = some (.error e) ∧ isEintr e = false

/-- The value `read_full` returns, the buffer and the stream afterwards, when
its `read` calls had the results `calls`. -/
structure ReadOutcome (src : Source UInt8) (len : Nat)
    (calls : List (Except Errno (List UInt8))) (res : Int × List UInt8 × Source UInt8) :
    Prop where
  made : src.Calls len calls res.2.2
  /-- All calls but the last have brought in something or were interrupted. -/
  goes_on : ∀ r ∈ calls.dropLast, GoesOn isEintr r
  got : res.2.1 = received calls
  /-- The buffer and the rest are the stream: no byte is skipped or repeated. -/
  conserved : res.2.1 ++ res.2.2.data = src.data
  length_le : res.2.1.length ≤ len
  full_iff : res.1 = len ↔
    len ≤ src.data.length ∧ res.2.1 = src.data.take len ∧ res.2.2.data = src.data.drop len
  zero_iff : res.1 = 0 ↔ len = 0 ∨ StreamEnded calls ∧ res.2.1 = []
  epipe : StreamEnded calls → res.2.1 ≠ [] →
    res.1 = -EPIPE ∧ res.2.1.length < len ∧ res.2.2.data = []
  errno : ∀ e, ReadFailed calls e → res.1 = -e.code
  /-- There is no other way to end. -/
  exhaustive : res.1 = len ∨ StreamEnded calls ∨ ∃ e, ReadFailed calls e

/-- A loop that has all it wants has seen neither the end nor a lasting error. -/
theorem not_ended_of_goesOn (h : ∀ r ∈ calls, GoesOn isEintr r) :
    ¬ StreamEnded calls ∧ ∀ e, ¬ ReadFailed calls e := by
  refine ⟨?_, ?_⟩
  · intro hend
    exact h _ (List.mem_of_getLast? hend) rfl
  · rintro e ⟨hfail, hother⟩
    have hretry : isEintr e = true := h _ (List.mem_of_getLast? hfail)
    rw [hother] at hretry
    cases hretry

/-- The first `len` bytes, seen from the buffer and the rest. -/
theorem full_iff_take {got rest data : List UInt8} (h : got ++ rest = data)
    (hle : got.length ≤ len) :
    got.length = len ↔ len ≤ data.length ∧ got = data.take len ∧ rest = data.drop len := by
  subst h
  constructor
  · rintro rfl
    refine ⟨?_, List.take_left.symm, List.drop_left.symm⟩
    rw [List.length_append]
    exact Nat.le_add_right _ _
  · rintro ⟨hlen, hgot, -⟩
    rw [hgot, List.length_take]
    exact Nat.min_eq_left hlen

section Ends

variable {got : List UInt8} {src' : Source UInt8}

/-- What holds of the loop however it ends. -/
theorem readLoop_facts {ending : ReadEnd} (h : readLoop isEintr src len = (got, ending, src')) :
    got ++ src'.data = src.data ∧ got.length ≤ len ∧ (ending = .full ↔ got.length = len) := by
  obtain ⟨hconserved, hfull⟩ := readLoop_conserves isEintr src len
  have hle := readLoop_length_le isEintr src len
  rw [h] at hconserved hfull hle
  exact ⟨hconserved, hle, hfull⟩

/-- The buffer is full. -/
theorem readFull_of_full (h : readLoop isEintr src len = (got, .full, src')) :
    ∃ calls, ReadOutcome src len calls (len, got, src') := by
  obtain ⟨calls, hcalls, hgot, hend⟩ := readLoop_calls isEintr src len
  obtain ⟨hconserved, hle, hfull⟩ := readLoop_facts h
  rw [h] at hcalls hgot hend
  obtain ⟨hnotended, hnotfailed⟩ := not_ended_of_goesOn hend
  refine ⟨calls, hcalls, ?_, hgot.symm, hconserved, hle, ?_, ?_, ?_, ?_, .inl rfl⟩
  · exact fun r hr => hend r (List.dropLast_subset calls hr)
  · exact iff_of_true rfl ((full_iff_take hconserved hle).mp (hfull.mp rfl))
  · show (len : Int) = 0 ↔ _
    rw [Int.natCast_eq_zero]
    exact ⟨.inl, fun h => h.resolve_right fun hended => hnotended hended.1⟩
  · exact fun hended => absurd hended hnotended
  · exact fun err hfailed => absurd hfailed (hnotfailed err)

/-- The stream has ended: fewer bytes than asked for. -/
theorem readFull_of_eof (h : readLoop isEintr src len = (got, .eof, src')) :
    ∃ calls, ReadOutcome src len calls (if got = [] then 0 else -EPIPE, got, src') := by
  obtain ⟨calls, hcalls, hgot, hend⟩ := readLoop_calls isEintr src len
  obtain ⟨hconserved, hle, hfull⟩ := readLoop_facts h
  have heof := readLoop_eof isEintr src len
  rw [h] at hcalls hgot hend heof
  obtain ⟨before, rfl, hbefore⟩ := hend
  have hended : StreamEnded (before ++ [.ok []]) := List.getLast?_concat
  have hshort : got.length < len := lt_of_le_of_ne hle fun h => ReadEnd.noConfusion (hfull.mpr h)
  refine ⟨_, hcalls, ?_, hgot.symm, hconserved, hle, ?_, ?_, ?_, ?_, .inr (.inl hended)⟩
  · rw [List.dropLast_concat]
    exact hbefore
  · refine iff_of_false ?_ fun h => hshort.ne ((full_iff_take hconserved hle).mpr h)
    show (if got = [] then (0 : Int) else -EPIPE) ≠ len
    split_ifs
    · omega
    · have hpipe : -EPIPE < 0 := by decide
      omega
  · show (if got = [] then (0 : Int) else -EPIPE) = 0 ↔ _
    split_ifs with hnil
    · exact iff_of_true rfl (.inr ⟨hended, hnil⟩)
    · refine iff_of_false (by decide) ?_
      rintro (h | h)
      · omega
      · exact hnil h.2
  · intro _ hne
    exact ⟨if_neg hne, hshort, heof rfl⟩
  · rintro err ⟨hfailed, -⟩
    rw [List.getLast?_concat] at hfailed
    cases hfailed

/-- An error that is not retried. -/
theorem readFull_of_failed {err : Errno} (h : readLoop isEintr src len = (got, .failed err, src')) :
    ∃ calls, ReadOutcome src len calls (-err.code, got, src') := by
  obtain ⟨calls, hcalls, hgot, hend⟩ := readLoop_calls isEintr src len
  obtain ⟨hconserved, hle, hfull⟩ := readLoop_facts h
  rw [h] at hcalls hgot hend
  obtain ⟨before, rfl, hother, hbefore⟩ := hend
  have hfailed : ReadFailed (before ++ [.error err]) err := ⟨List.getLast?_concat, hother⟩
  have hshort : got.length < len := lt_of_le_of_ne hle fun h => ReadEnd.noConfusion (hfull.mpr h)
  have hpos := err.pos
  have hnotended : ¬ StreamEnded (before ++ [.error err]) := by
    intro hended
    rw [StreamEnded, List.getLast?_concat] at hended
    cases hended
  refine ⟨_, hcalls, ?_, hgot.symm, hconserved, hle, ?_, ?_, ?_, ?_, .inr (.inr ⟨err, hfailed⟩)⟩
  · rw [List.dropLast_concat]
    exact hbefore
  · refine iff_of_false ?_ fun h => hshort.ne ((full_iff_take hconserved hle).mpr h)
    show -err.code ≠ len
    omega
  · refine iff_of_false ?_ ?_
    · show -err.code ≠ 0
      omega
    · rintro (h | h)
      · omega
      · exact hnotended h.1
  · exact fun hended => absurd hended hnotended
  · rintro err' ⟨hlast, -⟩
    rw [List.getLast?_concat] at hlast
    cases hlast
    rfl

end Ends

/-- **`read_full` of the daemon and of the control server**, on every schedule. -/
theorem readFull_outcome (src : Source UInt8) (len : Nat) :
    ∃ calls, ReadOutcome src len calls (readFull src len) := by
  unfold readFull
  rcases h : readLoop isEintr src len with ⟨got, - | - | err, src'⟩
  · exact readFull_of_full h
  · exact readFull_of_eof h
  · exact readFull_of_failed h

/-! ### The client's `read_full`, and `write_full` -/

/-- The client's `read_full` is the server's, but for the end of the stream
before the first byte. -/
theorem clientReadFull_eq (src : Source UInt8) (len : Nat) :
    Ctrl.clientReadFull src len =
      (if len ≠ 0 ∧ (readFull src len).1 = 0 then -EPIPE else (readFull src len).1,
        (readFull src len).2) := by
  have hfull := (readLoop_conserves isEintr src len).2
  have hle := readLoop_length_le isEintr src len
  unfold Ctrl.clientReadFull readFull
  rcases e : readLoop isEintr src len with ⟨got, - | - | err, src'⟩
  · dsimp only
    rw [if_neg]
    rintro ⟨hne, hzero⟩
    omega
  · rw [e] at hfull hle
    have hne : len ≠ 0 := by
      rintro rfl
      exact ReadEnd.noConfusion (hfull.mpr (Nat.le_zero.mp hle))
    by_cases hnil : got = []
    · simp [hne, hnil]
    · simp [hnil]
  · have hpos := err.pos
    dsimp only
    rw [if_neg]
    rintro ⟨-, hzero⟩
    omega

/-- **The full-length helpers are exact.**  Every call of `read_full` ends, with
`len` exactly when the next `len` bytes of the stream were moved into the buffer,
0 when there was nothing to read or the stream had ended, `-EPIPE` when it ended
in between, and the error otherwise; the client's differs in one value; and
`write_full` sends its bytes once and in order, in whatever pieces. -/
theorem fullIo_exact (src : Source UInt8) (len : Nat) (snk : Sink UInt8) (bs : List UInt8)
    (hsnk : snk.Calm) :
    (∃ calls, ReadOutcome src len calls (readFull src len)) ∧
      Ctrl.clientReadFull src len =
        (if len ≠ 0 ∧ (readFull src len).1 = 0 then -EPIPE else (readFull src len).1,
          (readFull src len).2) ∧
      (writeFull snk bs).1 = bs.length ∧ (writeFull snk bs).2.out = snk.out ++ bs := by
  obtain ⟨snk', -, hout, hwrite⟩ := writeFull_calm bs hsnk
  refine ⟨readFull_outcome src len, clientReadFull_eq src len, ?_, ?_⟩
  · rw [hwrite]
  · rw [hwrite]
    exact hout

/-- Four of five bytes in pieces with an interruption, and three bytes written
one at a time. -/
theorem fullIo_exact_chunks :
    Sink.Calm ⟨[], [.chunk 1, .error ⟨EINTR, by decide⟩, .chunk 1]⟩ ∧
      (∃ calls, ReadOutcome ⟨[1, 2, 3, 4, 5], [.chunk 1, .error ⟨EINTR, by decide⟩, .chunk 2]⟩ 4
        calls (readFull ⟨[1, 2, 3, 4, 5], [.chunk 1, .error ⟨EINTR, by decide⟩, .chunk 2]⟩ 4)) ∧
      (writeFull ⟨[], [.chunk 1, .error ⟨EINTR, by decide⟩, .chunk 1]⟩ [6, 7, 8]).2.out =
        [6, 7, 8] := by
  have hcalm : Sink.Calm ⟨[], [.chunk 1, .error ⟨EINTR, by decide⟩, .chunk 1]⟩ := by
    intro e he
    simp only [List.mem_cons, List.not_mem_nil, or_false, reduceCtorEq, false_or,
      IoEvent.error.injEq] at he
    rw [he]
    rfl
  have hexact := fullIo_exact
    ⟨[1, 2, 3, 4, 5], [.chunk 1, .error ⟨EINTR, by decide⟩, .chunk 2]⟩ 4
    ⟨[], [.chunk 1, .error ⟨EINTR, by decide⟩, .chunk 1]⟩ [6, 7, 8] hcalm
  exact ⟨hcalm, hexact.1, hexact.2.2.2⟩

end DirectStorage
