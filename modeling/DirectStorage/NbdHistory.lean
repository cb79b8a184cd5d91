/-
DirectStorage/NbdHistory.lean

Does the answer to a request depend on the requests before it?

Two servers have served two histories of complete requests, with allocations
succeeding, and their devices are the same.  What else they carry is the
receive buffer.  The next request changes the two devices in the same way
whatever it is, and gets the same answer unless it is a READ or WRITE of no
bytes: the backend refuses a `NULL` buffer before it looks at the length, and
the buffer is `NULL` until a request has asked for at least one byte.

Main results: `answersAfter` computes answer and device after every history,
and `sameAnswer_iff` says for which histories two answers are the same.
-/
import DirectStorage.NbdTruncation

namespace DirectStorage

variable {fresh fresh₁ fresh₂ : Nat → ByteMem} {b b₁ b₂ : Backend} {hs hs₁ hs₂ : List NbdReq}

/-! ### When the buffer is `NULL` -/

theorem length_grow_eq (c : NbdCore) (len : Nat) :
    (c.grow fresh len).buf.length = max c.buf.length len := by
  unfold NbdCore.grow
  split_ifs with h
  · simp only [List.length_append, ByteMem.length_load]
    omega
  · omega

/-- A request brings in no more bytes than it has made room for. -/
theorem length_received_le (b : Backend) (r : NbdReq) :
    (r.received b).length ≤ r.hdr.len.toNat := by
  unfold NbdReq.received
  split_ifs
  · rw [ByteMem.length_load]
  · rw [r.length_payload, NbdHeader.payloadLen]
    split_ifs
    · exact le_refl _
    · exact Nat.zero_le _

theorem length_serve (c : NbdCore) (r : NbdReq) :
    (c.serve fresh r).buf.length = max c.buf.length r.hdr.len.toNat := by
  have hroom : (r.received c.backend).length ≤ (c.grow fresh r.hdr.len.toNat).buf.length :=
    (length_received_le c.backend r).trans (length_grow c _)
  exact (length_putFront hroom).trans (length_grow_eq c _)

/-- The requests have asked for at least one byte of buffer. -/
def Allocated (rs : List NbdReq) : Prop := ∃ r ∈ rs, r.hdr.len ≠ 0

instance (rs : List NbdReq) : Decidable (Allocated rs) :=
  inferInstanceAs (Decidable (∃ r ∈ rs, r.hdr.len ≠ 0))

theorem max_pos_iff (n : Nat) (len : UInt32) : 0 < max n len.toNat ↔ 0 < n ∨ len ≠ 0 := by
  rw [lt_max_iff, Nat.pos_iff_ne_zero (n := len.toNat), Ne, Ne, ← UInt32.toNat_inj]
  rfl

/-- After a history there is a buffer exactly if there was one before, or the
history asked for one. -/
theorem serveAll_allocated (c : NbdCore) (rs : List NbdReq) :
    0 < (c.serveAll fresh rs).buf.length ↔ 0 < c.buf.length ∨ Allocated rs := by
  induction rs generalizing c with
  | nil => simp [NbdCore.serveAll, Allocated]
  | cons r rs ih =>
      have hcons : Allocated (r :: rs) ↔ r.hdr.len ≠ 0 ∨ Allocated rs := by
        simp [Allocated]
      show 0 < ((c.serve fresh r).serveAll fresh rs).buf.length ↔ _
      rw [ih, length_serve, max_pos_iff, hcons, or_assoc]

/-! ### The server after a history -/

/-- A history of complete requests, one pass for each. -/
theorem passes_history {tail : List UInt8} {st : NbdServer} (hb : st.backend.Live)
    (hsrc : st.src.Calm) (hsnk : st.snk.Calm) (hdisc : ∀ q ∈ hs, q.hdr.type ≠ nbdCmdDisc)
    (hdata : st.src.data = hs.flatMap HeaderFormat.Frame.encode ++ tail) :
    ∃ st', passes (serveOnce (allocating fresh)) hs.length st = .next st' ∧
      st'.src.Calm ∧ st'.snk.Calm ∧ st'.src.data = tail ∧
      st'.core = st.core.serveAll fresh hs := by
  induction hs generalizing st with
  | nil => exact ⟨st, rfl, hsrc, hsnk, hdata, rfl⟩
  | cons r rs ih =>
      rw [List.flatMap_cons, List.append_assoc] at hdata
      obtain ⟨st₁, hserved, -, hlive, hpasses⟩ : ∃ st₁, Served fresh st r _ st₁ ∧ _ :=
        passes_complete rs.length hb hsrc hsnk hdata
      rw [if_neg (hdisc r List.mem_cons_self)] at hpasses
      obtain ⟨st', hmany, hcalm, hsink, hrest, hcore⟩ := ih hlive hserved.calm_src
        hserved.calm_snk (fun q hq => hdisc q (List.mem_cons_of_mem r hq)) hserved.data
      refine ⟨st', hpasses.trans hmany, hcalm, hsink, hrest, ?_⟩
      rw [hcore, hserved.core]
      rfl

theorem applyAll_live (hb : b.Live) (rs : List NbdReq) : (applyAll b rs).Live := by
  induction rs generalizing b with
  | nil => exact hb
  | cons r rs ih => exact ih (apply_live hb r)

/-- A server that has been started on the device `b` and has served `hs` answers
`r` by sending `out`, and leaves the device as `b'`, in whatever chunks the
bytes travel. -/
def AnswersAfter (fresh : Nat → ByteMem) (b : Backend) (hs : List NbdReq) (r : NbdReq)
    (out : List UInt8) (b' : Backend) : Prop :=
  ∀ (src : Source UInt8) (snk : Sink UInt8) (tail : List UInt8), src.Calm → snk.Calm →
    src.data = hs.flatMap HeaderFormat.Frame.encode ++ (r.encode ++ tail) →
    ∃ st, passes (serveOnce (allocating fresh)) hs.length (NbdServer.start b src snk) =
        .next st ∧ st.backend = applyAll b hs ∧
      (serveOnce (allocating fresh) st).state.snk.out = st.snk.out ++ out ∧
      (serveOnce (allocating fresh) st).state.backend = b'

/-- **The answer after a history.**  Of the history it needs the device, and
whether a request before asked for any bytes. -/
theorem answersAfter (hb : b.Live) (hdisc : ∀ q ∈ hs, q.hdr.type ≠ nbdCmdDisc) (r : NbdReq) :
    AnswersAfter fresh b hs r
      (r.hdr.reply (applyAll b hs) (decide (¬ Allocated hs ∧ r.hdr.len = 0)))
      (r.apply (applyAll b hs)) := by
  intro src snk tail hsrc hsnk hdata
  obtain ⟨st, hmany, hcalm, hsink, hrest, hcore⟩ :
      ∃ st, passes (serveOnce (allocating fresh)) hs.length (NbdServer.start b src snk) = _ ∧ _ :=
    passes_history hb hsrc hsnk hdisc hdata
  have hdev : st.backend = applyAll b hs :=
    (congrArg NbdCore.backend hcore).trans (backend_serveAll _ _)
  obtain ⟨st', hserved, honce⟩ : ∃ st', Served fresh st r tail st' ∧ _ :=
    serveOnce_complete (hdev ▸ applyAll_live hb hs) hcalm hsink hrest
  have hstate : (serveOnce (allocating fresh) st).state = st' := by
    rw [honce]
    split_ifs
    · rfl
    · rfl
  -- the server started without a buffer
  have hnull : (st.core.grow fresh r.hdr.len.toNat).buf.isEmpty =
      decide (¬ Allocated hs ∧ r.hdr.len = 0) := by
    have hstart : ¬ 0 < (NbdServer.start b src snk).core.buf.length := Nat.lt_irrefl 0
    rw [Bool.eq_iff_iff, List.isEmpty_iff_length_eq_zero, decide_eq_true_iff, length_grow_eq,
      hcore, ← Nat.le_zero, ← Nat.not_lt, max_pos_iff, serveAll_allocated]
    tauto
  refine ⟨st, hmany, hdev, ?_, ?_⟩
  · rw [hstate, hserved.out, hdev, hnull]
  · rw [hstate, ← hdev]
    exact congrArg NbdCore.backend hserved.core

/-! ### Two histories -/

/-- A READ or WRITE of no bytes. -/
def NbdReq.MovesNothing (r : NbdReq) : Prop :=
  (r.hdr.type = nbdCmdRead ∨ r.hdr.type = nbdCmdWrite) ∧ r.hdr.len = 0

/-- The first eight bytes of an answer: the magic number and the error. -/
theorem take_reply (h : NbdHeader) (b : Backend) (bufNull : Bool) :
    (h.reply b bufNull).take 8 = toLe 4 (ntohl nbdReplyMagic).toNat ++
      toLe 4 (nbdErrorFromRc (h.rc b bufNull)).toNat := by
  have hlen : (toLe 4 (ntohl nbdReplyMagic).toNat ++
      toLe 4 (nbdErrorFromRc (h.rc b bufNull)).toNat).length = 8 := by
    rw [List.length_append, length_toLe, length_toLe]
  rw [NbdHeader.reply, replyBytes, ← List.append_assoc, List.append_assoc _ h.handle,
    List.take_left' hlen]

/-- A READ or WRITE is answered differently with and without a buffer. -/
theorem reply_null_ne {h : NbdHeader} (hrw : h.type = nbdCmdRead ∨ h.type = nbdCmdWrite)
    (b : Backend) : h.reply b true ≠ h.reply b false := by
  have hnull : h.rc b true = -EINVAL := by
    rw [NbdHeader.rc, if_pos hrw]
    rfl
  have hbuf : h.rc b false = 0 ∨ h.rc b false = -ERANGE := by
    rw [NbdHeader.rc, if_pos hrw, if_neg (by decide)]
    split_ifs
    · exact .inl rfl
    · exact .inr rfl
  intro heq
  have htake := congrArg (List.take 8) heq
  rw [take_reply, take_reply, hnull] at htake
  rcases hbuf with hrc | hrc
  · rw [hrc] at htake
    exact absurd htake (by decide)
  · rw [hrc] at htake
    exact absurd htake (by decide)

/-- Any other request is answered without looking at the buffer. -/
theorem reply_null_eq {h : NbdHeader} (hrw : ¬ (h.type = nbdCmdRead ∨ h.type = nbdCmdWrite))
    (b : Backend) (bufNull : Bool) : h.reply b bufNull = h.reply b false := by
  simp only [NbdHeader.reply, NbdHeader.rc, if_neg hrw]

/-- **History independence, exactly.**  After two histories that leave the same
device, every request leaves the same device again, and the two answers are the
same if and only if it is not the case that the request is a READ or WRITE of no
bytes and just one of the histories has asked for any bytes. -/
theorem sameAnswer_iff (hb₁ : b₁.Live) (hb₂ : b₂.Live)
    (hdisc₁ : ∀ q ∈ hs₁, q.hdr.type ≠ nbdCmdDisc) (hdisc₂ : ∀ q ∈ hs₂, q.hdr.type ≠ nbdCmdDisc)
    (hsame : applyAll b₁ hs₁ = applyAll b₂ hs₂) (r : NbdReq) :
    ∃ out₁ out₂ b', AnswersAfter fresh₁ b₁ hs₁ r out₁ b' ∧ AnswersAfter fresh₂ b₂ hs₂ r out₂ b' ∧
      (out₁ = out₂ ↔ (r.MovesNothing → (Allocated hs₁ ↔ Allocated hs₂))) := by
  refine ⟨_, _, _, answersAfter hb₁ hdisc₁ r, hsame ▸ answersAfter hb₂ hdisc₂ r, ?_⟩
  rw [hsame]
  by_cases hrw : r.hdr.type = nbdCmdRead ∨ r.hdr.type = nbdCmdWrite
  · by_cases hlen : r.hdr.len = 0
    · have hmoves : r.MovesNothing := ⟨hrw, hlen⟩
      have hne := reply_null_ne hrw (applyAll b₂ hs₂)
      simp only [hlen, and_true, hmoves, forall_const]
      by_cases h₁ : Allocated hs₁
      · by_cases h₂ : Allocated hs₂
        · simp only [h₁, h₂]
        · simp only [h₁, h₂, not_true_eq_false, not_false_eq_true, decide_true, decide_false]
          exact ⟨fun e => absurd e.symm hne, fun e => absurd (e.mp trivial) id⟩
      · by_cases h₂ : Allocated hs₂
        · simp only [h₁, h₂, not_true_eq_false, not_false_eq_true, decide_true, decide_false]
          exact ⟨fun e => absurd e hne, fun e => absurd (e.mpr trivial) id⟩
        · simp only [h₁, h₂]
    · -- with at least one byte to move there is a buffer
      have hmoves : ¬ r.MovesNothing := fun h => hlen h.2
      simp only [hlen, and_false, decide_false, hmoves, false_implies]
  · have hmoves : ¬ r.MovesNothing := fun h => hrw h.1
    have heq := reply_null_eq hrw (applyAll b₂ hs₂)
    exact ⟨fun _ h => absurd h hmoves, fun _ => (heq _).trans (heq _).symm⟩

/-- A WRITE is answered alike by a fresh server and by one that has served a
READ. -/
theorem sameAnswer_small : ∃ out b',
    AnswersAfter (fun _ => ByteMem.zero) NbdSmall.backend [] NbdSmall.writeReq out b' ∧
      AnswersAfter (fun _ => ByteMem.zero) NbdSmall.backend [NbdSmall.readReq] NbdSmall.writeReq
        out b' := by
  obtain ⟨out₁, out₂, b', h₁, h₂, hiff⟩ := sameAnswer_iff NbdSmall.backend_live
    NbdSmall.backend_live (by decide) (by decide)
    (show applyAll NbdSmall.backend [] = applyAll NbdSmall.backend [NbdSmall.readReq] from rfl)
    NbdSmall.writeReq
  obtain rfl := hiff.mpr fun h => absurd h.2 (by decide)
  exact ⟨out₁, b', h₁, h₂⟩

/-- A READ of no bytes at the start of the device. -/
def NbdSmall.emptyRead : NbdReq := ⟨NbdSmall.header nbdCmdRead 0 0, [], ⟨rfl, rfl⟩, by decide⟩

/-- **The size of an earlier request shows**: a fresh server refuses a READ of
no bytes, and one that has served a READ of four bytes carries it out. -/
theorem answer_depends_on_history :
    AnswersAfter (fun _ => ByteMem.zero) NbdSmall.backend [] NbdSmall.emptyRead
        (replyBytes [1, 2, 3, 4, 5, 6, 7, 8] (-EINVAL)) NbdSmall.backend ∧
      AnswersAfter (fun _ => ByteMem.zero) NbdSmall.backend [NbdSmall.readReq] NbdSmall.emptyRead
        (replyBytes [1, 2, 3, 4, 5, 6, 7, 8] 0) NbdSmall.backend ∧
      applyAll NbdSmall.backend [] = applyAll NbdSmall.backend [NbdSmall.readReq] ∧
      replyBytes [1, 2, 3, 4, 5, 6, 7, 8] (-EINVAL) ≠ replyBytes [1, 2, 3, 4, 5, 6, 7, 8] 0 := by
  refine ⟨?_, ?_, rfl, by decide⟩
  · exact answersAfter NbdSmall.backend_live (by decide) NbdSmall.emptyRead
  · exact answersAfter NbdSmall.backend_live (by decide) NbdSmall.emptyRead

end DirectStorage
