/-
DirectStorage/UrmaAtomic.lean

What the NBD thread sees of URMA transfers.

Every NBD request and every mock transfer works on the ramdisk under the backend
mutex, and so takes effect in one step.  In real mode the provider writes the
bytes of an `HBM_TO_RAMDISK` work request into the ramdisk between the post and
its completion, and nobody holds the mutex.

`ReadsSerial` says that every NBD read returns what it would return after some
serial execution of the NBD requests so far, in their order, and of some of the
transfers; `FinalSerial` says the same of the final content, with every
successful transfer in it.  Both hold in mock mode, and in real mode in every run
in which nobody touches the range of a work request in flight (`Calm`);
`not_readsSerial_torn` is a read of half a transfer.

The proof in real mode keeps the content as a serial execution under the pieces
of the work requests in flight (`RealInv`, an `Overlay`).
-/
import DirectStorage.UrmaCompletion
import DirectStorage.UrmaEffects

namespace DirectStorage

namespace Urma

open Function

variable {r t r₀ : Real} {a : RealAction} {as : List RealAction} {ops : List Effect} {s u : Sys}
  {b : Action}

/-! ### The property -/

/-- Every NBD read returns what it would return after a serial execution of the
run so far. -/
def ReadsSerial (r₀ : Real) (as : List RealAction) : Prop :=
  ∀ pre offset len post u, as = pre ++ .nbdRead offset len :: post →
    run Real.step r₀ pre = some u → ∃ ops, SerialExec r₀ pre ops ∧
      ramdiskBackendRead u.sys.backend offset false len = ramdiskBackendRead
        { u.sys.backend with mem := replay r₀.sys.backend.mem ops } offset false len

/-- The content at the end is that after a serial execution, with every transfer
in it that succeeded. -/
def FinalSerial (r₀ : Real) (as : List RealAction) (r : Real) : Prop :=
  ∃ ops, SerialExec r₀ as ops ∧ r.sys.backend.mem = replay r₀.sys.backend.mem ops ∧
    ∀ e ∈ transfers r₀ as, ∀ i, e.transfer = some i →
      r.sys.mgr.useMock = true ∨ r.completion i = some .success → e ∈ ops

/-- The store in flight of the `i`-th work request: posted, not completed, and to
the ramdisk. -/
def Real.flying (r : Real) (i : Nat) : Option Flight :=
  match r.sys.posted[i]?, r.completion i with
  | some wr, none =>
      if wr.opcode = .read then
        some ⟨wr.localOff r.sys.backend, wr.size, r.remote i, r.moved i⟩
      else none
  | _, _ => none

/-- What the NBD thread may rely on: atomic transfers for its reads and, once no
work request is in flight, for the content. -/
def NbdAtomic (r₀ : Real) (as : List RealAction) (r : Real) : Prop :=
  ReadsSerial r₀ as ∧ ((∀ i, r.flying i = none) → FinalSerial r₀ as r)

/-! ### The side condition -/

/-- The `len` bytes from `off` on meet no store in flight. -/
def Real.ClearOf (r : Real) (off len : Nat) : Prop :=
  ∀ i < r.sys.posted.length, ∀ p ∈ r.flying i,
    ¬ max off p.off < min (off + len) (p.off + p.size)

instance (r : Real) (off len : Nat) : Decidable (r.ClearOf off len) :=
  inferInstanceAs (Decidable (∀ i < r.sys.posted.length, ∀ p ∈ r.flying i, _))

/-- An NBD request keeps away from the ranges of the work requests in flight, a
work request is posted only where none is in flight, and one that completes has
moved all of its bytes or none. -/
def Calm (r : Real) : RealAction → Prop
  | .nbdRead offset len => r.ClearOf offset.toNat len.toNat
  | .daemon (.backendWrite offset _ len) => r.ClearOf offset.toNat len.toNat
  | .daemon (.backendZero offset len) => r.ClearOf offset.toNat len.toNat
  | .daemon (.workerExecute _) =>
      match r.sys.worker with
      | .executing c k _ =>
          match realWorkRequest r.sys (r.sys.reqs c) (r.sys.mgr.peers k) with
          | .ok wr => wr.opcode = .read → r.ClearOf (wr.localOff r.sys.backend) wr.size
          | .error _ => True
      | _ => True
  | .complete i _ => ∀ p ∈ r.flying i,
      (∀ j < p.size, p.moved j = true) ∨ ∀ j < p.size, p.moved j = false
  | _ => True

/-- The work request that the worker would post next. -/
def Real.posting (r : Real) : Option WorkRequest :=
  match r.sys.worker with
  | .executing c k _ => (realWorkRequest r.sys (r.sys.reqs c) (r.sys.mgr.peers k)).toOption
  | _ => none

theorem calm_execute_iff (r : Real) (post : Bool) :
    Calm r (.daemon (.workerExecute post)) ↔
      ∀ wr ∈ r.posting, wr.opcode = .read → r.ClearOf (wr.localOff r.sys.backend) wr.size := by
  simp only [Calm, Real.posting]
  cases r.sys.worker with
  | executing c k conn =>
      dsimp only
      cases realWorkRequest r.sys (r.sys.reqs c) (r.sys.mgr.peers k) with
      | error e => simp [Except.toOption]
      | ok wr => simp [Except.toOption]
  | _ => simp

instance (r : Real) : (a : RealAction) → Decidable (Calm r a)
  | .nbdRead _ _ | .daemon (.backendWrite _ _ _) | .daemon (.backendZero _ _) =>
      inferInstanceAs (Decidable (r.ClearOf _ _))
  | .daemon (.workerExecute post) => decidable_of_iff _ (calm_execute_iff r post).symm
  | .complete i _ => inferInstanceAs (Decidable (∀ p ∈ r.flying i, _ ∨ _))
  | .daemon (.transferSync _ _ _) | .daemon (.timedwait _ _ _) | .daemon (.peerConnect _ _)
  | .daemon (.peerConnectLocked _) | .daemon (.peerDisconnect _)
  | .daemon (.peerDisconnectRelease _) | .daemon .enable | .daemon .disable | .daemon .fillStatus
  | .daemon (.mockWritePeer _ _ _ _) | .daemon .mgrDestroy | .daemon (.workerDequeue _)
  | .daemon (.workerPoll _) | .daemon .workerComplete | .daemon .workerLog | .move _ _ _
  | .poll _ => instDecidableTrue

/-! ### Stores in flight -/

theorem getElem?_concat_of_ne {α : Type*} {l : List α} {x : α} {j : Nat} (h : j ≠ l.length) :
    (l ++ [x])[j]? = l[j]? := by
  rcases lt_or_gt_of_ne h with hlt | hgt
  · exact List.getElem?_append_left hlt
  · rw [List.getElem?_eq_none hgt.le, List.getElem?_eq_none]
    rw [List.length_append, List.length_singleton]
    exact hgt

theorem flying_eq {i : Nat} {wr : WorkRequest} (hwr : r.sys.posted[i]? = some wr)
    (hop : wr.opcode = .read) (hopen : r.completion i = none) :
    r.flying i = some ⟨wr.localOff r.sys.backend, wr.size, r.remote i, r.moved i⟩ := by
  simp only [Real.flying, hwr, hopen, hop, if_true]

theorem flying_write {i : Nat} {wr : WorkRequest} (hwr : r.sys.posted[i]? = some wr)
    (hop : wr.opcode = .write) : r.flying i = none := by
  unfold Real.flying
  rw [hwr]
  split
  next wr' heq _ =>
    obtain rfl := Option.some.inj heq
    exact if_neg (by rw [hop]; rintro ⟨⟩)
  next => rfl

theorem flying_some {i : Nat} {p : Flight} (h : r.flying i = some p) :
    ∃ wr, r.sys.posted[i]? = some wr ∧ wr.opcode = .read ∧ r.completion i = none ∧
      p = ⟨wr.localOff r.sys.backend, wr.size, r.remote i, r.moved i⟩ := by
  unfold Real.flying at h
  split at h
  next wr hwr hopen =>
    split_ifs at h with hop
    exact ⟨wr, hwr, hop, hopen, (Option.some.inj h).symm⟩
  next => cases h

/-- What is in flight at `i` depends on the `i`-th work request only. -/
theorem flying_congr {i : Nat} (hposted : t.sys.posted[i]? = r.sys.posted[i]?)
    (hopen : t.completion i = r.completion i) (hremote : t.remote = r.remote)
    (hmoved : t.moved i = r.moved i) (hbase : t.sys.backend.base = r.sys.backend.base) :
    t.flying i = r.flying i := by
  simp only [Real.flying, WorkRequest.localOff, hposted, hopen, hremote, hmoved, hbase]

/-- A range clear of the stores in flight is met by none of them. -/
theorem Real.ClearOf.apart {off len k i : Nat} {p : Flight} (h : r.ClearOf off len)
    (hk : r.flying k = some p) (hc : p.Covers i) : i < off ∨ off + len ≤ i := by
  obtain ⟨wr, hwr, -⟩ := flying_some hk
  have hlt : k < r.sys.posted.length := (List.getElem?_eq_some_iff.mp hwr).1
  have hclear := h k hlt p hk
  obtain ⟨hlo, hhi⟩ := hc
  omega

/-- The store of a piece. -/
theorem flying_move {i lo n : Nat} {wr : WorkRequest} (hwr : r.sys.posted[i]? = some wr)
    (hop : wr.opcode = .read) (hopen : r.completion i = none)
    (hposted : t.sys.posted = r.sys.posted) (hcompletion : t.completion = r.completion)
    (hremote : t.remote = r.remote) (hbase : t.sys.backend.base = r.sys.backend.base)
    (hmoved : t.moved = update r.moved i (movedPiece (r.moved i) lo n)) :
    t.flying = update r.flying i (some ⟨wr.localOff r.sys.backend, wr.size, r.remote i,
      movedPiece (r.moved i) lo n⟩) := by
  funext j
  by_cases e : j = i
  · subst e
    have hflying := flying_eq (r := t) (hposted ▸ hwr) hop (hcompletion ▸ hopen)
    rw [hflying, update_self, hremote, hmoved, update_self]
    simp only [WorkRequest.localOff, hbase]
  · rw [update_of_ne e]
    exact flying_congr (by rw [hposted]) (by rw [hcompletion]) hremote
      (by rw [hmoved, update_of_ne e]) hbase

/-- A completion ends a flight. -/
theorem flying_complete {i : Nat} {status : CrStatus} :
    ({ r with completion := update r.completion i (some status) } : Real).flying =
      update r.flying i none := by
  funext j
  by_cases e : j = i
  · subst e
    rw [update_self]
    simp only [Real.flying, update_self]
    split
    next heq => cases heq
    next => rfl
  · rw [update_of_ne e]
    refine flying_congr rfl ?_ rfl rfl rfl
    exact update_of_ne e _ _

/-- A post of a `READ` starts a flight. -/
theorem flying_post {wr : WorkRequest} {w : WorkerPc} (hop : wr.opcode = .read)
    (hopen : r.completion r.sys.posted.length = none) :
    ({ r with sys := { r.sys with worker := w, posted := r.sys.posted ++ [wr] } } : Real).flying =
      update r.flying r.sys.posted.length (some ⟨wr.localOff r.sys.backend, wr.size,
        r.remote r.sys.posted.length, r.moved r.sys.posted.length⟩) := by
  funext j
  by_cases e : j = r.sys.posted.length
  · subst e
    rw [update_self]
    exact flying_eq List.getElem?_concat_length hop hopen
  · rw [update_of_ne e]
    refine flying_congr ?_ rfl rfl rfl rfl
    exact getElem?_concat_of_ne e

/-! ### Real mode -/

/-- The invariant of calm runs in real mode: the content is that after a serial
execution, under the pieces of the work requests in flight. -/
structure RealInv (r₀ : Real) (as : List RealAction) (r : Real) (ops : List Effect) : Prop where
  serial : SerialExec r₀ as ops
  overlay : Overlay (replay r₀.sys.backend.mem ops) r.sys.backend.mem r.flying
  /-- What has been applied has completed. -/
  landed : ∀ e ∈ ops, ∀ i, e.transfer = some i → r.completion i ≠ none
  success : ∀ e ∈ transfers r₀ as, ∀ i, e.transfer = some i →
    r.completion i = some .success → e ∈ ops
  /-- The transfers are the work requests that read. -/
  posted : ∀ e, e ∈ transfers r₀ as ↔
    ∃ i wr, r.sys.posted[i]? = some wr ∧ wr.opcode = .read ∧ e = r.wrEffect i wr
  fresh : ∀ i, r.sys.posted.length ≤ i → (∀ j, r.moved i j = false) ∧ r.completion i = none

theorem RealInv.keep (h : RealInv r₀ as r ops) (hrun : run Real.step r₀ as = some r)
    (hstep : r.step a = some t) (hposted : t.sys.posted = r.sys.posted)
    (hcompletion : t.completion = r.completion) (hremote : t.remote = r.remote)
    (hbase : t.sys.backend.base = r.sys.backend.base)
    (hmoved : ∀ i, r.sys.posted.length ≤ i → t.moved i = r.moved i)
    (htransfer : transferEffect r a = none)
    (hover : Overlay (replay r₀.sys.backend.mem (ops ++ (nbdEffect r a).toList))
      t.sys.backend.mem t.flying) :
    RealInv r₀ (as ++ [a]) t (ops ++ (nbdEffect r a).toList) := by
  have htransfers : transfers r₀ (as ++ [a]) = transfers r₀ as := by
    rw [transfers_snoc hrun hstep, htransfer, Option.toList_none, List.append_nil]
  have heffect : ∀ i wr, t.wrEffect i wr = r.wrEffect i wr := by
    intro i wr
    simp only [Real.wrEffect, WorkRequest.localOff, hremote, hbase]
  refine ⟨h.serial.snoc hrun hstep, hover, ?_, ?_, ?_, ?_⟩
  · intro e he i hid
    rw [hcompletion]
    rcases List.mem_append.mp he with he | he
    · exact h.landed e he i hid
    · cases (nbdEffect_transfer (Option.mem_toList.mp he)).symm.trans hid
  · intro e he i hid hsuccess
    rw [htransfers] at he
    rw [hcompletion] at hsuccess
    exact List.mem_append_left _ (h.success e he i hid hsuccess)
  · intro e
    simp only [htransfers, hposted, heffect]
    exact h.posted e
  · intro i hi
    rw [hposted] at hi
    rw [hcompletion, hmoved i hi]
    exact h.fresh i hi

/-- Steps without any effect. -/
theorem RealInv.same (h : RealInv r₀ as r ops) (hrun : run Real.step r₀ as = some r)
    (hstep : r.step a = some t) (hposted : t.sys.posted = r.sys.posted)
    (hcompletion : t.completion = r.completion) (hremote : t.remote = r.remote)
    (hbackend : t.sys.backend = r.sys.backend) (hmoved : t.moved = r.moved)
    (hn : nbdEffect r a = none) (htransfer : transferEffect r a = none) :
    RealInv r₀ (as ++ [a]) t ops := by
  have hflying : t.flying = r.flying := by
    funext i
    exact flying_congr (by rw [hposted]) (by rw [hcompletion]) hremote (by rw [hmoved])
      (by rw [hbackend])
  have hkeep := h.keep hrun hstep hposted hcompletion hremote (by rw [hbackend])
    (fun i _ => by rw [hmoved]) htransfer
  rw [hn, Option.toList_none, List.append_nil] at hkeep
  refine hkeep ?_
  rw [hbackend, hflying]
  exact h.overlay

/-- An NBD write or trim away from the work requests in flight. -/
theorem RealInv.nbd (h : RealInv r₀ as r ops) (hrun : run Real.step r₀ as = some r)
    (hlive : r.sys.backend.Live) (hstep : r.step (.daemon b) = some { r with sys := u })
    (hu : Urma.step r.sys b = some u) (hb : b.touches = true)
    (hexec : ∀ post, b ≠ .workerExecute post) (hcalm : Calm r (.daemon b)) :
    RealInv r₀ (as ++ [.daemon b]) { r with sys := u }
      (ops ++ (nbdEffect r (.daemon b)).toList) := by
  obtain ⟨htransfer, hu'⟩ := nbd_step hlive hu hb hexec
  have hflying : ({ r with sys := u } : Real).flying = r.flying := by
    funext i
    refine flying_congr ?_ rfl rfl rfl ?_
    · show u.posted[i]? = _
      rw [hu']
    · show u.backend.base = _
      rw [hu']
  refine h.keep hrun hstep ?_ rfl rfl ?_ (fun _ _ => rfl) htransfer ?_
  · show u.posted = _
    rw [hu']
  · show u.backend.base = _
    rw [hu']
  rw [hflying, replay_append]
  show Overlay _ u.backend.mem _
  rw [hu']
  show Overlay _ (replay r.sys.backend.mem _) _
  cases heff : nbdEffect r (.daemon b) with
  | none => exact h.overlay
  | some e =>
      refine h.overlay.store e.off e.data ?_
      intro k p i hk hc
      cases b with
      | backendWrite offset data len =>
          simp only [nbdEffect] at heff
          split_ifs at heff
          cases heff
          have hclear : r.ClearOf offset.toNat len.toNat := hcalm
          have hlen : (data.take len.toNat).length ≤ len.toNat := List.length_take_le _ _
          have := hclear.apart hk hc
          dsimp only
          omega
      | backendZero offset len =>
          simp only [nbdEffect] at heff
          split_ifs at heff
          cases heff
          have hclear : r.ClearOf offset.toNat len.toNat := hcalm
          dsimp only
          rw [List.length_replicate]
          exact hclear.apart hk hc
      | _ => cases heff

/-- A piece of a work request that reads. -/
theorem RealInv.piece {i lo n : Nat} {wr : WorkRequest} (h : RealInv r₀ as r ops)
    (hrun : run Real.step r₀ as = some r) (hstep : r.step a = some t)
    (hn : nbdEffect r a = none) (htransfer : transferEffect r a = none)
    (hwr : r.sys.posted[i]? = some wr) (hop : wr.opcode = .read) (hopen : r.completion i = none)
    (hin : lo + n ≤ wr.size)
    (hsys : t.sys = { r.sys with backend := { r.sys.backend with
      mem := r.sys.backend.mem.copy (wr.localOff r.sys.backend + lo) (r.remote i) lo n } })
    (hmoved : t.moved = update r.moved i (movedPiece (r.moved i) lo n))
    (hcompletion : t.completion = r.completion) (hremote : t.remote = r.remote) :
    RealInv r₀ (as ++ [a]) t ops := by
  have hposted : t.sys.posted = r.sys.posted := by rw [hsys]
  have hbase : t.sys.backend.base = r.sys.backend.base := by rw [hsys]
  have hlt : i < r.sys.posted.length := (List.getElem?_eq_some_iff.mp hwr).1
  have hkeep := h.keep hrun hstep hposted hcompletion hremote hbase ?_ htransfer
  · rw [hn, Option.toList_none, List.append_nil] at hkeep
    refine hkeep ?_
    rw [flying_move hwr hop hopen hposted hcompletion hremote hbase hmoved, hsys]
    exact h.overlay.move (flying_eq hwr hop hopen) hin
  · intro j hj
    rw [hmoved]
    exact update_of_ne (Nat.lt_of_lt_of_le hlt hj).ne' _ _

/-- A work request is posted, away from those in flight if it reads. -/
theorem RealInv.post {wr : WorkRequest} {w : WorkerPc} (h : RealInv r₀ as r ops)
    (hrun : run Real.step r₀ as = some r) (hstep : r.step a = some t)
    (ht : t = { r with sys := { r.sys with worker := w, posted := r.sys.posted ++ [wr] } })
    (hn : nbdEffect r a = none)
    (heff : transferEffect r a =
      if wr.opcode = .read then some (r.wrEffect r.sys.posted.length wr) else none)
    (hclear : wr.opcode = .read → r.ClearOf (wr.localOff r.sys.backend) wr.size) :
    RealInv r₀ (as ++ [a]) t ops := by
  subst ht
  obtain ⟨hunmoved, hopen⟩ := h.fresh r.sys.posted.length le_rfl
  have hlast : r.sys.posted[r.sys.posted.length]? = none := List.getElem?_eq_none le_rfl
  have hserial := h.serial.snoc hrun hstep
  rw [hn, Option.toList_none, List.append_nil] at hserial
  have htransfers := transfers_snoc hrun hstep
  refine ⟨hserial, ?_, h.landed, ?_, ?_, ?_⟩
  · cases hop : wr.opcode with
    | read =>
        rw [flying_post hop hopen]
        refine h.overlay.takeOff ?_ hunmoved ?_
        · simp only [Real.flying, hlast]
        · intro k p i hk hc hc'
          have := (hclear hop).apart hk hc
          obtain ⟨hlo, hhi⟩ := hc'
          dsimp only at hlo hhi
          omega
    | write =>
        have hflying : ({ r with
            sys := { r.sys with worker := w, posted := r.sys.posted ++ [wr] } } : Real).flying =
              r.flying := by
          funext j
          by_cases e : j = r.sys.posted.length
          · subst e
            rw [flying_write List.getElem?_concat_length hop]
            simp only [Real.flying, hlast]
          · exact flying_congr (getElem?_concat_of_ne e) rfl rfl rfl rfl
        rw [hflying]
        exact h.overlay
  · intro e he i hid hsuccess
    rw [htransfers, heff] at he
    rcases List.mem_append.mp he with he | he
    · exact h.success e he i hid hsuccess
    · -- the new one has not completed
      split_ifs at he
      · rw [Option.toList_some, List.mem_singleton] at he
        subst he
        cases hid
        cases hopen.symm.trans hsuccess
      · cases he
  · intro e
    rw [htransfers, List.mem_append, h.posted e, heff]
    constructor
    · rintro (⟨i, wr', hwr', hop, rfl⟩ | he)
      · have hlt : i < r.sys.posted.length := (List.getElem?_eq_some_iff.mp hwr').1
        exact ⟨i, wr', (List.getElem?_append_left hlt).trans hwr', hop, rfl⟩
      · split_ifs at he with hop
        · exact ⟨_, wr, List.getElem?_concat_length, hop, List.mem_singleton.mp he⟩
        · cases he
    · rintro ⟨i, wr', hwr', hop, rfl⟩
      by_cases e : i = r.sys.posted.length
      · subst e
        obtain rfl := Option.some.inj (List.getElem?_concat_length.symm.trans hwr')
        rw [if_pos hop]
        exact .inr List.mem_cons_self
      · exact .inl ⟨i, wr', (getElem?_concat_of_ne e).symm.trans hwr', hop, rfl⟩
  · intro i hi
    refine h.fresh i (le_trans ?_ hi)
    rw [List.length_append]
    exact Nat.le_add_right _ _

/-- The execution of a request posts its work request, or nothing. -/
theorem RealInv.execute {post : Bool} (h : RealInv r₀ as r ops)
    (hrun : run Real.step r₀ as = some r) (hreal : r.sys.mgr.useMock = false)
    (hstep : r.step (.daemon (.workerExecute post)) = some { r with sys := u })
    (hu : Urma.step r.sys (.workerExecute post) = some u)
    (hcalm : Calm r (.daemon (.workerExecute post))) :
    RealInv r₀ (as ++ [.daemon (.workerExecute post)]) { r with sys := u } ops := by
  obtain ⟨c, k, conn, hw, hexec⟩ := workerExecute_executed (step_workerExecute hu)
  have heff := transferEffect.eq_1 r post
  simp only [hw, hreal, Bool.false_eq_true, if_false] at heff
  cases hexec with
  | mock rc mem hbm hmock hrc hu' => cases hmock.symm.trans hreal
  | fault hmock hrc hu' => cases hmock.symm.trans hreal
  | refused rc _ hno hu' =>
      subst hu'
      refine h.same hrun hstep rfl rfl rfl rfl rfl rfl ?_
      rw [heff]
      split
      next wr hwr => exact if_neg (by rw [hno wr hwr]; rintro ⟨⟨⟩, -⟩)
      next => rfl
  | posted wr _ hpost hwr hu' =>
      subst hu'
      simp only [hwr, hpost, true_and] at heff
      simp only [Calm, hw, hwr] at hcalm
      exact h.post hrun hstep rfl rfl (hpost ▸ heff) hcalm

/-- The transfer of a work request is the only one with its number. -/
theorem RealInv.own {i : Nat} {wr : WorkRequest} {e : Effect} (h : RealInv r₀ as r ops)
    (hwr : r.sys.posted[i]? = some wr) (he : e ∈ transfers r₀ as) (hid : e.transfer = some i) :
    wr.opcode = .read ∧ e = r.wrEffect i wr := by
  obtain ⟨i', wr', hwr', hop, rfl⟩ := (h.posted e).mp he
  cases hid
  obtain rfl := Option.some.inj (hwr.symm.trans hwr')
  exact ⟨hop, rfl⟩

/-- A completion, with or without its transfer applied. -/
theorem RealInv.completed {i : Nat} {status : CrStatus} {ops' : List Effect}
    (h : RealInv r₀ as r ops) (hlt : i < r.sys.posted.length) (hopen : r.completion i = none)
    (ht : t = { r with completion := update r.completion i (some status) })
    (htransfers : transfers r₀ (as ++ [a]) = transfers r₀ as)
    (hserial : SerialExec r₀ (as ++ [a]) ops')
    (hover : Overlay (replay r₀.sys.backend.mem ops') r.sys.backend.mem
      (update r.flying i none))
    (hsub : ∀ e ∈ ops, e ∈ ops') (hnew : ∀ e ∈ ops', e ∈ ops ∨ e.transfer = some i)
    (happlied : status = .success → ∀ e ∈ transfers r₀ as, e.transfer = some i → e ∈ ops') :
    RealInv r₀ (as ++ [a]) t ops' := by
  have hself : t.completion i = some status := by
    rw [ht]
    exact update_self _ _ _
  have hother : ∀ j, j ≠ i → t.completion j = r.completion j := by
    intro j hj
    rw [ht]
    exact update_of_ne hj _ _
  refine ⟨hserial, ?_, ?_, ?_, ?_, ?_⟩
  · rw [ht, flying_complete]
    exact hover
  · intro e he j hid
    by_cases ej : j = i
    · rw [ej, hself]
      rintro ⟨⟩
    · rw [hother j ej]
      refine h.landed e ((hnew e he).resolve_right ?_) j hid
      intro hid'
      exact ej (Option.some.inj (hid.symm.trans hid'))
  · intro e he j hid hsuccess
    rw [htransfers] at he
    by_cases ej : j = i
    · subst ej
      exact happlied (Option.some.inj (hself.symm.trans hsuccess)) e he hid
    · rw [hother j ej] at hsuccess
      exact hsub e (h.success e he j hid hsuccess)
  · intro e
    rw [htransfers, ht]
    exact h.posted e
  · intro j hj
    rw [ht] at hj
    rw [hother j (Nat.lt_of_lt_of_le hlt hj).ne', ht]
    exact h.fresh j hj

/-- A completion that moved everything applies the transfer, any other one gives
it up. -/
theorem RealInv.complete {i : Nat} {status : CrStatus} {wr : WorkRequest}
    (h : RealInv r₀ as r ops) (hrun : run Real.step r₀ as = some r)
    (hstep : r.step (.complete i status) = some t)
    (ht : t = { r with completion := update r.completion i (some status) })
    (hwr : r.sys.posted[i]? = some wr) (hopen : r.completion i = none)
    (hall : status = .success → ∀ j < wr.size, r.moved i j = true)
    (hcalm : Calm r (.complete i status)) :
    ∃ ops', RealInv r₀ (as ++ [.complete i status]) t ops' := by
  have hlt : i < r.sys.posted.length := (List.getElem?_eq_some_iff.mp hwr).1
  have hserial : SerialExec r₀ (as ++ [.complete i status]) ops := by
    have hsnoc := h.serial.snoc hrun hstep
    rwa [show nbdEffect r (.complete i status) = none from rfl, Option.toList_none,
      List.append_nil] at hsnoc
  have htransfers : transfers r₀ (as ++ [.complete i status]) = transfers r₀ as := by
    rw [transfers_snoc hrun hstep]
    exact List.append_nil _
  by_cases hmoved : wr.opcode = .read ∧ ∀ j < wr.size, r.moved i j = true
  · obtain ⟨hop, hmoved⟩ := hmoved
    have he : r.wrEffect i wr ∈ transfers r₀ as := (h.posted _).mpr ⟨i, wr, hwr, hop, rfl⟩
    have hnew : r.wrEffect i wr ∉ ops := fun hmem => h.landed _ hmem i rfl hopen
    refine ⟨ops ++ [r.wrEffect i wr], h.completed hlt hopen ht htransfers
      (hserial.apply (htransfers ▸ he) rfl hnew) ?_ ?_ ?_ ?_⟩
    · rw [replay_append]
      exact h.overlay.land (flying_eq hwr hop hopen) hmoved
    · intro e he'
      exact List.mem_append_left _ he'
    · intro e he'
      refine (List.mem_append.mp he').imp_right ?_
      intro he'
      rw [List.mem_singleton.mp he']
      rfl
    · intro _ e he' hid
      rw [(h.own hwr he' hid).2]
      exact List.mem_append_right _ List.mem_cons_self
  · refine ⟨ops, h.completed hlt hopen ht htransfers hserial ?_ (fun _ he => he)
      (fun _ he => .inl he) ?_⟩
    · cases hop : wr.opcode with
      | read =>
          have hflying := flying_eq hwr hop hopen
          rcases hcalm _ hflying with hfull | hempty
          · exact absurd ⟨hop, hfull⟩ hmoved
          · exact h.overlay.drop hflying hempty
      | write =>
          rw [← flying_write hwr hop, update_eq_self]
          exact h.overlay
    · intro hsuccess e he hid
      exact absurd ⟨(h.own hwr he hid).1, hall hsuccess⟩ hmoved

/-- **One step in real mode.** -/
theorem RealInv.step (h : RealInv r₀ as r ops) (hrun : run Real.step r₀ as = some r)
    (hr : Reachable r.sys) (hreal : r.sys.mgr.useMock = false) (hcalm : Calm r a)
    (hstep : r.step a = some t) : ∃ ops', RealInv r₀ (as ++ [a]) t ops' := by
  cases step_realStep hstep with
  | daemon b u hpoll hu =>
      cases hb : b.touches with
      | false =>
          have hbackend := (step_kept hu).backend hb
          have hposted := (step_kept hu).posted hb
          obtain ⟨hn, ht⟩ := effect_untouched (r := r) hb
          exact ⟨ops, h.same hrun hstep hposted rfl rfl hbackend rfl hn ht⟩
      | true =>
          by_cases hexec : ∃ post, b = .workerExecute post
          · obtain ⟨post, rfl⟩ := hexec
            exact ⟨ops, h.execute hrun hreal hstep hu hcalm⟩
          · have hne : ∀ post, b ≠ .workerExecute post := fun post e => hexec ⟨post, e⟩
            exact ⟨_, h.nbd hrun hr.live hstep hu hb hne hcalm⟩
  | nbdRead offset len => exact ⟨ops, h.same hrun hstep rfl rfl rfl rfl rfl rfl rfl⟩
  | moveRead i lo n wr hrunning hwr hop hopen hin hlocal =>
      exact ⟨ops, h.piece hrun hstep rfl rfl hwr hop hopen hin rfl rfl rfl rfl⟩
  | moveWrite i lo n wr hwr hop =>
      have hlt : i < r.sys.posted.length := (List.getElem?_eq_some_iff.mp hwr).1
      refine ⟨_, h.keep hrun hstep rfl rfl rfl rfl ?_ rfl ?_⟩
      · intro j hj
        exact update_of_ne (by omega) _ _
      · have hflying : ({ r with moved := update r.moved i (movedPiece (r.moved i) lo n) } :
            Real).flying = r.flying := by
          funext j
          by_cases e : j = i
          · subst e
            rw [flying_write hwr hop]
            exact flying_write hwr hop
          · refine flying_congr rfl rfl rfl ?_ rfl
            exact update_of_ne e _ _
        rw [hflying, show nbdEffect r (.move i lo n) = none from rfl, Option.toList_none,
          List.append_nil]
        exact h.overlay
  | complete i status wr hwr hopen hall => exact h.complete hrun hstep rfl hwr hopen hall hcalm
  | again out c r' p hw hfetch honce =>
      obtain ⟨hr', -, -⟩ := fetch_some hfetch
      refine ⟨ops, h.same hrun hstep ?_ ?_ ?_ ?_ ?_ rfl rfl⟩
      all_goals
        dsimp only
        rw [hr']
  | returns out c r' p rc u hw hfetch honce hu =>
      obtain ⟨hr', -, -⟩ := fetch_some hfetch
      have hbackend := (step_kept hu).backend rfl
      have hposted := (step_kept hu).posted rfl
      refine ⟨ops, h.same hrun hstep hposted ?_ ?_ hbackend ?_ rfl rfl⟩
      all_goals
        dsimp only
        rw [hr']

theorem run_realInv (hinit : RealInitial r₀) (hreal : r₀.sys.mgr.useMock = false)
    (hok : RunOk Real.step Calm r₀ as) (hrun : run Real.step r₀ as = some r) :
    ∃ ops, RealInv r₀ as r ops := by
  refine run_history (P := fun as r => ∃ ops, RealInv r₀ as r ops) ?_ ?_ hok hrun
  · obtain ⟨s, remote, hs, rfl⟩ := hinit
    obtain ⟨b, m, config, queueOk, mutexRc, provider, threadRc, -, -, rfl⟩ := hs
    refine ⟨[], serial_nil _, Overlay.refl _, by rintro e ⟨⟩, by rintro e ⟨⟩, ?_, ?_⟩
    · intro e
      constructor
      · rintro ⟨⟩
      · rintro ⟨i, wr, ⟨⟩, -⟩
    · exact fun i _ => ⟨fun _ => rfl, rfl⟩
  · rintro as r a t hrun' - ⟨ops, hinv⟩ hcalm hstep
    exact hinv.step hrun' (Real.reachable hinit hrun') ((run_useMock hinit hrun').trans hreal)
      hcalm hstep

/-! ### The result -/

/-- A read depends on the bytes of its range. -/
theorem read_congr {bk : Backend} (hlive : bk.Live) {m : ByteMem} {offset : UInt64} {len : UInt32}
    (h : ∀ i, offset.toNat ≤ i → i < offset.toNat + len.toNat → bk.mem i = m i) :
    ramdiskBackendRead bk offset false len =
      ramdiskBackendRead { bk with mem := m } offset false len := by
  rw [read_live hlive, read_live (hlive.withMem m)]
  split_ifs
  · rw [ByteMem.load_congr h]
  · rfl

/-- **NBD requests see transfers atomically** in mock mode, and in real mode in
every run in which nobody touches the range of a work request in flight. -/
theorem nbdAtomic_of_calm (hinit : RealInitial r₀)
    (hok : r₀.sys.mgr.useMock = true ∨ RunOk Real.step Calm r₀ as)
    (hrun : run Real.step r₀ as = some r) : NbdAtomic r₀ as r := by
  refine ⟨?_, ?_⟩
  · rintro pre offset len post u rfl hu
    have hlive := (Real.reachable hinit hu).live
    cases hmode : r₀.sys.mgr.useMock with
    | true =>
        obtain ⟨ops, hinv⟩ := run_mockInv hinit hmode hu
        refine ⟨ops, hinv.serial, read_congr hlive ?_⟩
        intro i _ _
        rw [hinv.content]
    | false =>
        have hok' := hok.resolve_left (by rw [hmode]; exact Bool.false_ne_true)
        obtain ⟨hpre, hread⟩ := (runOk_append_iff hu).mp hok'
        obtain ⟨ops, hinv⟩ := run_realInv hinit hmode hpre hu
        refine ⟨ops, hinv.serial, read_congr hlive ?_⟩
        intro i hlo hhi
        refine hinv.overlay.clear ?_
        intro k p hk hc
        have hclear : u.ClearOf offset.toNat len.toNat := hread.1
        have := hclear.apart hk hc
        omega
  · intro hquiet
    cases hmode : r₀.sys.mgr.useMock with
    | true =>
        obtain ⟨ops, hinv⟩ := run_mockInv hinit hmode hrun
        exact ⟨ops, hinv.serial, hinv.content, fun e he _ _ _ => hinv.all e he⟩
    | false =>
        have hok' := hok.resolve_left (by rw [hmode]; exact Bool.false_ne_true)
        obtain ⟨ops, hinv⟩ := run_realInv hinit hmode hok' hrun
        refine ⟨ops, hinv.serial, hinv.overlay.landed hquiet, ?_⟩
        rintro e he i hid (hmock | hsuccess)
        · rw [run_useMock hinit hrun, hmode] at hmock
          cases hmock
        · exact hinv.success e he i hid hsuccess

/-! ### The small daemon -/

namespace Small

/-- Copy the first block of the segment of peer 7 to the start of the ramdisk. -/
def xferRead : UrmaTransfer := ⟨7, 1, 0, 65536, 512, hbmToRamdisk⟩

/-- The transfer is call 1; its work request is posted. -/
def postRead : List RealAction :=
  realConnect ++ [.daemon (.transferSync xferRead 0 now), .daemon (.workerDequeue .fault),
    .daemon (.workerExecute true)]

/-- The NBD thread works on the second block while the first one is transferred. -/
def calmTransfer : List RealAction :=
  postRead ++ [.move 0 0 256, .daemon (.backendWrite 512 [7] 1), .nbdRead 512 512, .move 0 256 256,
    .complete 0 .success, .poll (.deliver 0), .nbdRead 0 1024]

/-- Half of the block has been moved. -/
def halfMoved : List RealAction := postRead ++ [.move 0 0 256]

end Small

theorem nbdAtomic_small : ∃ r, run Real.step Small.realStart Small.calmTransfer = some r ∧
    r.sys.worker = .finishing 1 0 ∧ r.sys.backend.mem 0 = 1 ∧ r.sys.backend.mem 512 = 7 ∧
    NbdAtomic Small.realStart Small.calmTransfer r := by
  obtain ⟨r, hrun, hr⟩ := exists_of_run_any (δ := Real.step) Small.realStart Small.calmTransfer
    (fun r => r.sys.worker = .finishing 1 0 ∧ r.sys.backend.mem 0 = 1 ∧ r.sys.backend.mem 512 = 7)
    (by decide +kernel)
  have hok : RunOk Real.step Calm Small.realStart Small.calmTransfer := by decide +kernel
  obtain ⟨hw, h₀, h₁⟩ := of_decide_eq_true hr
  exact ⟨r, hrun, hw, h₀, h₁, nbdAtomic_of_calm Small.realStart_initial (.inr hok) hrun⟩

/-- **A torn read**: the NBD thread reads the block of a transfer half of which
has been moved.  The first byte is the new one and byte 256 the old one; no serial
execution leaves the two different. -/
theorem not_readsSerial_torn : ∃ u, run Real.step Small.realStart Small.halfMoved = some u ∧
    u.sys.backend.mem 0 = 1 ∧ u.sys.backend.mem 256 = 0 ∧
    run Real.step Small.realStart (Small.halfMoved ++ [.nbdRead 0 512]) = some u ∧
    ¬ ReadsSerial Small.realStart (Small.halfMoved ++ [.nbdRead 0 512]) := by
  obtain ⟨u, hrun, hu⟩ := exists_of_run_any (δ := Real.step) Small.realStart Small.halfMoved
    (fun u => u.sys.backend.mem 0 = 1 ∧ u.sys.backend.mem 256 = 0 ∧
      u.sys.backend.size = 1024 ∧ u.sys.worker = .polling 1) (by decide +kernel)
  obtain ⟨hnew, hold, hsize, hw⟩ := of_decide_eq_true hu
  refine ⟨u, hrun, hnew, hold, ?_, ?_⟩
  · refine run_snoc_iff.mpr ⟨u, hrun, ?_⟩
    simp only [Real.step, hw]
  intro hreads
  obtain ⟨ops, hserial, hread⟩ := hreads _ 0 512 [] u rfl hrun
  have hnbd : nbdEffects Small.realStart Small.halfMoved = [] := by decide +kernel
  have htransfers : ∀ e ∈ transfers Small.realStart Small.halfMoved,
      e.off = 0 ∧ e.data = List.replicate 512 1 := by decide +kernel
  -- the transfer is the only thing that can have been stored
  have hops : ∀ e ∈ ops, e.off = 0 ∧ e.data = List.replicate 512 1 := by
    intro e he
    refine htransfers e (hserial.whole e he ?_)
    by_contra hnone
    have hmem : e ∈ ops.filter fun e => e.transfer.isNone := by
      refine List.mem_filter.mpr ⟨he, ?_⟩
      simpa using hnone
    rw [hserial.nbd, hnbd] at hmem
    cases hmem
  have hlevel : replay Small.realStart.sys.backend.mem ops 0 =
      replay Small.realStart.sys.backend.mem ops 256 := by
    refine replay_invariant (I := fun m => m 0 = m 256) rfl ?_
    intro e he m hm
    obtain ⟨hoff, hdata⟩ := hops e he
    rw [hoff, hdata, ← ByteMem.fill_eq_store]
    rfl
  -- but the read saw two different bytes
  have hlive := (Real.reachable Small.realStart_initial hrun).live
  have hin : (0 : UInt64).toNat + (512 : UInt32).toNat ≤ u.sys.backend.size.toNat := by
    rw [hsize]
    decide
  rw [read_live hlive, read_live (hlive.withMem _), if_pos hin, if_pos hin] at hread
  obtain ⟨-, hload⟩ := Prod.mk.inj hread
  rw [show (0 : UInt64).toNat = 0 from rfl, show (512 : UInt32).toNat = 512 from rfl] at hload
  have hbyte : ∀ i < 512, u.sys.backend.mem (0 + i) =
      replay Small.realStart.sys.backend.mem ops (0 + i) := by
    intro i hi
    rw [← ByteMem.getD_load u.sys.backend.mem 0 hi, ← ByteMem.getD_load (replay _ ops) 0 hi]
    rw [hload]
  have h₀ := hbyte 0 (by omega)
  have h₁ := hbyte 256 (by omega)
  rw [← hlevel, ← h₀, hnew, hold] at h₁
  cases h₁

end Urma

end DirectStorage
