/-
DirectStorage/FullIo.lean

`read_full` and `write_full`, of which the NBD daemon
(`userspace-nbd/src/nbd_ramdisk.c`) and the control server
(`userspace-nbd/src/ramdisk_ctrl_server.c`) have one copy each, line by line
the same.

Both are the retrying loops of the chunked-stream library with `EINTR` as the
only error that is retried; what is the code's own is the value returned.  At
the end of the stream `read_full` returns 0 if nothing was read and `-EPIPE`
otherwise, so that 0 means two things when `len` is 0.
-/
import DirectStorage.Chunked
import DirectStorage.Backend

namespace DirectStorage

/-- `errno == EINTR`. -/
def isEintr (e : Errno) : Bool := e.code == EINTR

/-- `read_full`: the value returned, the bytes put into the buffer and the
stream afterwards. -/
def readFull (src : Source UInt8) (len : Nat) : Int × List UInt8 × Source UInt8 :=
  match readLoop isEintr src len with
  | (got, .full, src') => (len, got, src')
  | (got, .eof, src') => (if got = [] then 0 else -EPIPE, got, src')
  | (got, .failed e, src') => (-e.code, got, src')

/-- `write_full`: the value returned and the sink afterwards. -/
def writeFull (snk : Sink UInt8) (bs : List UInt8) : Int × Sink UInt8 :=
  match writeLoop isEintr snk bs with
  | (none, snk') => (bs.length, snk')
  | (some e, snk') => (-e.code, snk')

/-! ### Any schedule -/

theorem readFull_conserves (src : Source UInt8) (len : Nat) :
    (readFull src len).2.1 ++ (readFull src len).2.2.data = src.data := by
  have h := (readLoop_conserves isEintr src len).1
  unfold readFull
  rcases e : readLoop isEintr src len with ⟨got, - | - | err, src'⟩ <;> simpa [e] using h

theorem readFull_length_le (src : Source UInt8) (len : Nat) :
    (readFull src len).2.2.data.length ≤ src.data.length := by
  rw [← readFull_conserves src len, List.length_append]
  omega

/-- A positive value is `len`, and then `len` bytes were read. -/
theorem readFull_pos {src : Source UInt8} {len : Nat} (h : 0 < (readFull src len).1) :
    (readFull src len).2.1.length = len := by
  have hfull := (readLoop_conserves isEintr src len).2
  unfold readFull at h ⊢
  rcases e : readLoop isEintr src len with ⟨got, - | - | err, src'⟩
  · simpa [e] using hfull
  · rw [e] at h
    dsimp only at h
    split_ifs at h <;> simp at h
  · have hpos := err.pos
    rw [e] at h
    dsimp only at h
    omega

theorem length_readFull_le (src : Source UInt8) (len : Nat) :
    (readFull src len).2.1.length ≤ len := by
  have h := readLoop_length_le isEintr src len
  unfold readFull
  rcases e : readLoop isEintr src len with ⟨got, - | - | err, src'⟩ <;> simpa [e] using h

theorem writeFull_prefix (snk : Sink UInt8) (bs : List UInt8) :
    ∃ sent, sent <+: bs ∧ (writeFull snk bs).2.out = snk.out ++ sent := by
  have h := writeLoop_prefix isEintr snk bs
  unfold writeFull
  rcases e : writeLoop isEintr snk bs with ⟨- | err, snk'⟩ <;> simpa [e] using h

/-- How a `read_full` can end: with an error, at the end of the stream before the
first byte, or with all that was asked for. -/
theorem readFull_cases (src : Source UInt8) (len : Nat) :
    (readFull src len).1 < 0 ∨
      (readFull src len).1 = 0 ∧ len ≠ 0 ∧ src.data = [] ∨
      (readFull src len).1 = len ∧ len ≤ src.data.length ∧
        (readFull src len).2.1 = src.data.take len ∧
        (readFull src len).2.2.data = src.data.drop len := by
  obtain ⟨hdata, hfull⟩ := readLoop_conserves isEintr src len
  have heof := readLoop_eof isEintr src len
  unfold readFull
  rcases e : readLoop isEintr src len with ⟨got, - | - | err, src'⟩
  · rw [e] at hdata hfull
    have hlen : got.length = len := hfull.mp rfl
    have hdata : got ++ src'.data = src.data := hdata
    refine .inr (.inr ⟨rfl, ?_, ?_, ?_⟩)
    · rw [← hdata, List.length_append, hlen]
      exact Nat.le_add_right _ _
    · rw [← hdata, List.take_left' hlen]
    · rw [← hdata, List.drop_left' hlen]
  · rw [e] at hdata hfull heof
    have hdata : got ++ src'.data = src.data := hdata
    have hend : src'.data = [] := heof rfl
    dsimp only
    by_cases hnil : got = []
    · refine .inr (.inl ⟨if_pos hnil, ?_, ?_⟩)
      · rintro rfl
        exact ReadEnd.noConfusion (hfull.mpr (congrArg List.length hnil))
      · rw [← hdata, hnil, hend]
        rfl
    · rw [if_neg hnil]
      exact .inl (by decide)
  · exact .inl (Int.neg_neg_of_pos err.pos)

/-- `write_full` fails after some beginning of the bytes, or sends all of them. -/
theorem writeFull_cases (snk : Sink UInt8) (bs : List UInt8) :
    ((writeFull snk bs).1 < 0 ∧ ∃ sent, sent <+: bs ∧ (writeFull snk bs).2.out = snk.out ++ sent) ∨
      (writeFull snk bs).1 = bs.length ∧ (writeFull snk bs).2.out = snk.out ++ bs := by
  have hprefix := writeFull_prefix snk bs
  have hall := writeLoop_all isEintr snk bs
  unfold writeFull at hprefix ⊢
  rcases e : writeLoop isEintr snk bs with ⟨- | err, snk'⟩
  · rw [e] at hall
    exact .inr ⟨rfl, hall rfl⟩
  · rw [e] at hprefix
    exact .inl ⟨Int.neg_neg_of_pos err.pos, hprefix⟩

/-! ### Schedules without errors other than `EINTR` -/

/-- The stream is delivered without read errors. -/
abbrev Source.Calm (src : Source UInt8) : Prop := Quiet isEintr src.sched

/-- Everything written is accepted, in whatever pieces. -/
abbrev Sink.Calm (snk : Sink UInt8) : Prop := Quiet isEintr snk.sched

/-- **`read_full` does not see the chunks.** -/
theorem readFull_calm {src : Source UInt8} (len : Nat) (h : src.Calm) :
    ∃ src' : Source UInt8, src'.Calm ∧ src'.data = src.data.drop len ∧
      readFull src len =
        (if len ≤ src.data.length then (len : Int) else if src.data = [] then 0 else -EPIPE,
          src.data.take len, src') := by
  obtain ⟨rest, hrest, heq⟩ := readLoop_quiet len h
  refine ⟨⟨src.data.drop len, rest⟩, hrest, rfl, ?_⟩
  unfold readFull
  by_cases hle : len ≤ src.data.length
  · rw [heq, if_pos hle, if_pos hle]
  · have hnil : src.data.take len = [] ↔ src.data = [] := by
      rw [List.take_of_length_le (by omega)]
    rw [heq, if_neg hle, if_neg hle]
    simp only [hnil]

/-- **`write_full` does not see the chunks.** -/
theorem writeFull_calm {snk : Sink UInt8} (bs : List UInt8) (h : snk.Calm) :
    ∃ snk' : Sink UInt8, snk'.Calm ∧ snk'.out = snk.out ++ bs ∧
      writeFull snk bs = ((bs.length : Int), snk') := by
  obtain ⟨rest, hrest, heq⟩ := writeLoop_quiet bs h
  exact ⟨⟨snk.out ++ bs, rest⟩, hrest, rfl, by simp [writeFull, heq]⟩

end DirectStorage
