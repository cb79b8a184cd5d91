/-
DirectStorage/DirectIoContents.lean

The direct-IO queue with its requests' contents and the driver's own
`urma_blkdev_post_jetty_wr` (`kernel-urma/urma_blkdev.c`).

`DirectIo` leaves out what a request carries along, and takes the outcome of
the post from the label.  Here a call has all its arguments, a request is the
record `struct urma_blkdev_io_req`, and the post is the function of the source:
it looks at the record, logs it and returns an error, because the driver does not
know the layout of a jetty's work request yet.  A step is a step of the queue
together with what it writes to the records (`Full.step`), so every result about
the queue holds here.

A record is written once, when the request is allocated, from the arguments of
the call and from what `urma_blkdev_map_io` made of them; afterwards only the
worker writes to it, its number.  What a submitter's variables and its request
hold is said at each of its program points (`AtPc`).

Main results: `reachable_delivered`, what is posted and what the callbacks are
called with; `worker_fails_all`, the worker alone completes every request that
was accepted.
-/
import DirectStorage.DirectIoPost

namespace DirectStorage

namespace DirectIo

open Function
open Blkdev (urmaBlkdevMapIo IoMapping mapIo_ok)

/-! ### The requests and their contents -/

/-- `struct urma_blkdev_peer`; `jetty` is a pointer. -/
structure IoPeer where
  eid : List UInt8
  jetty : Option Nat
  deriving Inhabited, DecidableEq

/-- `struct urma_blkdev_io`. -/
structure NvmetIo where
  dir : UInt32
  lba : UInt64
  blockCount : UInt32
  hbmAddr : UInt64
  hbmTokenId : UInt32
  deriving Inhabited, DecidableEq

/-- The arguments of `urma_blkdev_submit_nvmet_io`: `dev` and `done` say that
`urma_blkdev_dev_from_bdev` finds a device and that there is a callback. -/
structure SubmitCall where
  dev : Bool
  peer : Option IoPeer
  io : Option NvmetIo
  done : Bool
  priv : Nat

/-- What the queue sees of a call.  The fields of `io` are looked at after `io`
itself. -/
def SubmitCall.args (call : SubmitCall) : SubmitArgs where
  peerNull := call.peer.isNone
  ioNull := call.io.isNone
  doneNull := !call.done
  devNull := !call.dev
  jettyNull := (call.peer.getD default).jetty.isNone
  dir := (call.io.getD default).dir
  lba := (call.io.getD default).lba
  blockCount := (call.io.getD default).blockCount

/-- `struct urma_blkdev_io_req`, without the list head, the device, the callback
and the reference count. -/
structure IoReq where
  peer : IoPeer
  io : NvmetIo
  byteOffset : UInt64
  localUbva : UInt64
  len : UInt64
  wrId : Nat
  priv : Nat
  deriving Inhabited, DecidableEq

/-- The request as `urma_blkdev_submit_nvmet_io` fills it in; `kzalloc` has left
`wr_id` at 0. -/
def IoReq.fill (call : SubmitCall) (m : IoMapping) : IoReq where
  peer := call.peer.getD default
  io := call.io.getD default
  byteOffset := m.byteOffset
  localUbva := m.localUbva
  len := m.len
  wrId := 0
  priv := call.priv

/-- `urma_blkdev_post_jetty_wr`, for a request that has a device; `seg` says that
the device's segment is registered. -/
def urmaBlkdevPostJettyWr (seg : Bool) (req : IoReq) : Int :=
  if !seg || req.peer.jetty.isNone then -EINVAL else -EOPNOTSUPP

/-- **The post always fails.** -/
theorem post_neg (seg : Bool) (req : IoReq) : urmaBlkdevPostJettyWr seg req < 0 := by
  unfold urmaBlkdevPostJettyWr
  split_ifs <;> decide

/-- The device, with the two pointers that `urmaReady` is made of and the module
parameter `queue_depth`. -/
structure UrmaDev where
  ramdiskSize : UInt64
  ubvaAddr : UInt64
  logicalBlockSize : UInt32
  seg : Bool
  ubDev : Bool
  queueDepth : UInt32

def UrmaDev.dev (d : UrmaDev) : Dev where
  ramdiskSize := d.ramdiskSize
  ubvaAddr := d.ubvaAddr
  logicalBlockSize := d.logicalBlockSize
  urmaReady := d.seg && d.ubDev
  queueDepth := initQueueDepth d.queueDepth

/-- `urma_blkdev_map_io` for the blocks of a call. -/
def UrmaDev.mapCall (d : UrmaDev) (call : SubmitCall) : Except Int IoMapping :=
  urmaBlkdevMapIo d.logicalBlockSize d.ramdiskSize d.ubvaAddr call.args.lba call.args.blockCount

/-- The queue and the contents: the arguments of the calls, their local variables
`byte_offset`, `len` and `local_ubva`, the memory of their requests, and the
requests that were posted and the arguments of the callbacks, in their order. -/
structure Full where
  q : St
  calls : List SubmitCall
  locals : ReqId → IoMapping
  reqs : ReqId → IoReq
  posts : List IoReq
  callbacks : List (Nat × Int)

namespace Full

/-- The queue after `urma_blkdev_init_io_queue`; what is in memory does not matter. -/
def init (allocated : Bool) : Full where
  q := (initIoQueue allocated).2
  calls := []
  locals := fun _ => ⟨0, 0, 0⟩
  reqs := fun _ => default
  posts := []
  callbacks := []

inductive Label where
  | submit (call : SubmitCall)
  | sub (c : ReqId) (ok : Bool)
  | start
  /-- `xaErr` is the error number of `xa_store`, 0 for success. -/
  | work (xaErr : Nat)
  | clean

def Label.byWorker : Label → Bool
  | .start | .work _ => true
  | _ => false

variable (d : UrmaDev)

/-- The code that a step of the worker gets to see. -/
def workRc (F : Full) (xaErr : Nat) : Int :=
  match F.q.worker with
  | .running _ (.counted r _) => urmaBlkdevPostJettyWr d.seg (F.reqs r)
  | _ => -(xaErr : Int)

/-- The step of the queue. -/
def action (F : Full) : Label → Action
  | .submit call => .submit call.args
  | .sub c ok => .sub c ok
  | .start => .start
  | .work xaErr => .work (F.workRc d xaErr)
  | .clean => .clean

/-- What a submitter at `pc` writes: the results of `urma_blkdev_map_io` into its
local variables, and the request it has allocated. -/
def writeSub (F : Full) (c : ReqId) (ok : Bool) (call : SubmitCall) : SubPc → Full
  | .checking args =>
      match submitCheck d.dev F.q.ioWq args, d.mapCall call with
      | .checked, .ok m => { F with locals := update F.locals c m }
      | _, _ => F
  | .gotRef =>
      if ok then { F with reqs := update F.reqs c (IoReq.fill call (F.locals c)) } else F
  | _ => F

/-- What the worker writes and hands on. -/
def writeWork (F : Full) : Worker → Full
  | .running _ (.popped r) =>
      { F with reqs := update F.reqs r { F.reqs r with wrId := F.q.nextWrId + 1 } }
  | .running _ (.counted r _) => { F with posts := F.posts ++ [F.reqs r] }
  | .running _ (.failing r rc) => { F with callbacks := F.callbacks ++ [((F.reqs r).priv, rc)] }
  | _ => F

/-- What the cleanup hands on. -/
def writeClean (F : Full) : CleanPc → Full
  | .failing (r :: _) => { F with callbacks := F.callbacks ++ [((F.reqs r).priv, -ESHUTDOWN)] }
  | _ => F

def write (F : Full) : Label → Full
  | .submit call => { F with calls := F.calls ++ [call] }
  | .sub c ok =>
      match F.calls[c]?, F.q.subs[c]? with
      | some call, some pc => F.writeSub d c ok call pc
      | _, _ => F
  | .start => F
  | .work _ => F.writeWork F.q.worker
  | .clean => F.writeClean F.q.cleaner

/-- A step of the queue and what it writes. -/
def step (F : Full) (a : Label) : Option Full :=
  (DirectIo.step d.dev F.q (F.action d a)).map fun q => { F.write d a with q := q }

/-! ### Where the contents are right -/

/-- The request is that of the call: the peer, the range and `priv` are the call's,
and the address, the offset and the length are those of `urma_blkdev_map_io`. -/
structure Carries (call : SubmitCall) (req : IoReq) : Prop where
  peer : call.peer = some req.peer
  io : call.io = some req.io
  priv : req.priv = call.priv
  jetty : req.peer.jetty.isSome
  seg : d.seg = true
  dir : req.io.dir = ioRead ∨ req.io.dir = ioWrite
  mapping : d.mapCall call = .ok ⟨req.byteOffset, req.len, req.localUbva⟩

/-- What a submitter's local variables and its request hold when it is at `pc`. -/
def AtPc (call : SubmitCall) (m : IoMapping) (req : IoReq) : SubPc → Prop
  | .checking args => args = call.args ∧ call.peer.isSome ∧ call.io.isSome
  | .checked | .sawPending _ | .admitted | .gotRef => Carries d call (IoReq.fill call m)
  | .allocated | .rejected _ | .added | .crashed => Carries d call req
  | .returned rc => rc = 0 → Carries d call req

/-- The number of the request in the worker's hands. -/
def number : Worker → Option (ReqId × Nat)
  | .running _ (.numbered r wrId) | .running _ (.stored r wrId) | .running _ (.counted r wrId) =>
      some (r, wrId)
  | _ => none

/-- The posted record `w` is that of request `e.1` under the number `e.2`. -/
def IsPost (calls : List SubmitCall) (e : ReqId × Nat) (w : IoReq) : Prop :=
  w.wrId = e.2 ∧ ∃ call, calls[e.1]? = some call ∧ Carries d call w

/-- The callback was called with the call's `priv`. -/
def IsCallback (calls : List SubmitCall) (e : ReqId × Int) (w : Nat × Int) : Prop :=
  w.2 = e.2 ∧ ∃ call, calls[e.1]? = some call ∧ w.1 = call.priv

structure Carried (F : Full) : Prop where
  length : F.calls.length = F.q.subs.length
  subs : ∀ (c : ReqId) pc, F.q.subs[c]? = some pc →
    ∃ call, F.calls[c]? = some call ∧ AtPc d call (F.locals c) (F.reqs c) pc
  number : ∀ e ∈ number F.q.worker, (F.reqs e.1).wrId = e.2
  posts : List.Forall₂ (IsPost d F.calls) F.q.posted F.posts
  callbacks : List.Forall₂ (IsCallback F.calls) F.q.done F.callbacks

variable {d} {F G : Full} {a : Label} {c : ReqId} {call : SubmitCall} {m : IoMapping} {req : IoReq}
  {t : St} {pc : SubPc} {ok : Bool}

theorem step_eq (h : F.step d a = some G) :
    ∃ q, DirectIo.step d.dev F.q (F.action d a) = some q ∧ G = { F.write d a with q := q } := by
  obtain ⟨q, hq, rfl⟩ := Option.map_eq_some_iff.mp h
  exact ⟨q, hq, rfl⟩

/-- Whoever leaves the checks for the counters has passed all of them; whoever
does not returns an error. -/
theorem submitCheck_cases (dev : Dev) (ioWq : IoWq) (args : SubmitArgs) :
    (∃ rc, rc ≠ 0 ∧ submitCheck dev ioWq args = .returned rc) ∨
      submitCheck dev ioWq args = .checked ∧ dev.urmaReady = true ∧ args.jettyNull = false ∧
        (args.dir = ioRead ∨ args.dir = ioWrite) ∧
        ∃ m, urmaBlkdevMapIo dev.logicalBlockSize dev.ramdiskSize dev.ubvaAddr args.lba
          args.blockCount = .ok m := by
  unfold submitCheck
  split_ifs with hready hwq hjetty hdir
  · exact .inl ⟨_, by decide, rfl⟩
  · exact .inl ⟨_, by decide, rfl⟩
  · exact .inl ⟨_, by decide, rfl⟩
  · exact .inl ⟨_, by decide, rfl⟩
  · split
    next rc herr => exact .inl ⟨rc, mapIo_error_ne herr, rfl⟩
    next m hm =>
      refine .inr ⟨rfl, by simpa using hready, by simpa using hjetty, ?_, m, hm⟩
      by_contra hne
      exact hdir (not_or.mp hne)

/-- A call that passes the checks fills in a right record. -/
theorem carries_fill (hpeer : call.peer.isSome) (hio : call.io.isSome)
    (hready : d.dev.urmaReady = true) (hjetty : call.args.jettyNull = false)
    (hdir : call.args.dir = ioRead ∨ call.args.dir = ioWrite) (hm : d.mapCall call = .ok m) :
    Carries d call (IoReq.fill call m) := by
  obtain ⟨peer, hpeer⟩ := Option.isSome_iff_exists.mp hpeer
  obtain ⟨io, hio⟩ := Option.isSome_iff_exists.mp hio
  have hseg : (d.seg && d.ubDev) = true := hready
  simp only [SubmitCall.args, hpeer, hio, Option.getD_some] at hjetty hdir
  refine ⟨?_, ?_, rfl, ?_, ?_, ?_, hm⟩
  · simp [IoReq.fill, hpeer]
  · simp [IoReq.fill, hio]
  · simpa [IoReq.fill, hpeer, Option.isSome_iff_ne_none] using hjetty
  · exact ((Bool.and_eq_true _ _).mp hseg).1
  · simpa [IoReq.fill, hio] using hdir

theorem Carries.withNumber (h : Carries d call req) (wrId : Nat) :
    Carries d call { req with wrId := wrId } :=
  ⟨h.peer, h.io, h.priv, h.jetty, h.seg, h.dir, h.mapping⟩

theorem AtPc.withNumber (h : AtPc d call m req pc) (wrId : Nat) :
    AtPc d call m { req with wrId := wrId } pc := by
  cases pc with
  | returned rc => exact fun hrc => (h hrc).withNumber wrId
  | allocated => exact Carries.withNumber h wrId
  | rejected rc => exact Carries.withNumber h wrId
  | added => exact Carries.withNumber h wrId
  | crashed => exact Carries.withNumber h wrId
  | _ => exact h

/-- A request that is the queue's business has the contents of its call. -/
theorem AtPc.carries (h : AtPc d call m req pc) (hacc : pc.accepted) : Carries d call req := by
  cases pc with
  | returned rc => exact h (by simpa [SubPc.accepted] using hacc)
  | added => exact h
  | crashed => exact h
  | _ => cases hacc

/-- **A submitter's step**, on its own variables and its own request. -/
theorem submit_atPc (hat : AtPc d call (F.locals c) (F.reqs c) pc)
    (h : submitStep d.dev F.q c ok pc = some t) :
    ∃ pc', t.subs = F.q.subs.set c pc' ∧
      AtPc d call ((F.writeSub d c ok call pc).locals c)
        ((F.writeSub d c ok call pc).reqs c) pc' := by
  cases pc with
  | checking args =>
      obtain rfl := Option.some.inj h
      obtain ⟨rfl, hpeer, hio⟩ := hat
      refine ⟨_, rfl, ?_⟩
      rcases submitCheck_cases d.dev F.q.ioWq call.args with
        ⟨rc, hrc, hcheck⟩ | ⟨hcheck, hready, hjetty, hdir, m, hm⟩
      · rw [hcheck]
        exact fun h0 => absurd h0 hrc
      · have hm : d.mapCall call = .ok m := hm
        simp only [writeSub, hcheck, hm, update_self]
        exact carries_fill hpeer hio hready hjetty hdir hm
  | checked =>
      obtain rfl := Option.some.inj h
      exact ⟨_, rfl, hat⟩
  | sawPending pending =>
      obtain rfl := Option.some.inj h
      refine ⟨_, rfl, ?_⟩
      split_ifs
      · exact fun h0 => absurd h0 (by decide)
      · exact hat
  | admitted =>
      simp only [submitStep] at h
      split_ifs at h
      · obtain rfl := Option.some.inj h
        exact ⟨_, rfl, hat⟩
      · obtain rfl := Option.some.inj h
        exact ⟨_, rfl, fun h0 => absurd h0 (by decide)⟩
  | gotRef =>
      simp only [submitStep] at h
      split_ifs at h with hok
      · obtain rfl := Option.some.inj h
        refine ⟨_, rfl, ?_⟩
        simp only [writeSub, hok, if_true, update_self]
        exact hat
      · obtain rfl := Option.some.inj h
        exact ⟨_, rfl, fun h0 => absurd h0 (by decide)⟩
  | allocated =>
      obtain rfl := Option.some.inj h
      simp only [submitLocked]
      split_ifs
      · exact ⟨_, rfl, hat⟩
      · exact ⟨_, rfl, hat⟩
      · exact ⟨_, rfl, hat⟩
  | rejected rc =>
      obtain rfl := Option.some.inj h
      exact ⟨_, rfl, fun _ => hat⟩
  | added =>
      simp only [submitStep] at h
      split at h
      · obtain rfl := Option.some.inj h
        exact ⟨_, rfl, hat⟩
      · obtain rfl := Option.some.inj h
        exact ⟨_, rfl, hat⟩
      · obtain rfl := Option.some.inj h
        refine ⟨.returned 0, ?_, fun _ => hat⟩
        unfold St.queueWork
        split_ifs <;> rfl
      · obtain rfl := Option.some.inj h
        refine ⟨.returned 0, ?_, fun _ => hat⟩
        unfold St.queueWork
        split_ifs <;> rfl
  | returned rc => cases h
  | crashed => cases h

/-- A submitter writes to its own variables and its own request only. -/
theorem writeSub_frame (F : Full) (d : UrmaDev) (c : ReqId) (ok : Bool) (call : SubmitCall)
    (pc : SubPc) :
    (F.writeSub d c ok call pc).calls = F.calls ∧ (F.writeSub d c ok call pc).posts = F.posts ∧
      (F.writeSub d c ok call pc).callbacks = F.callbacks ∧
      ∀ c', c' ≠ c → (F.writeSub d c ok call pc).locals c' = F.locals c' ∧
        (F.writeSub d c ok call pc).reqs c' = F.reqs c' := by
  cases pc with
  | checking args =>
      simp only [writeSub]
      split
      · exact ⟨rfl, rfl, rfl, fun c' hc' => ⟨update_of_ne hc' _ _, rfl⟩⟩
      · exact ⟨rfl, rfl, rfl, fun _ _ => ⟨rfl, rfl⟩⟩
  | gotRef =>
      simp only [writeSub]
      split_ifs
      · exact ⟨rfl, rfl, rfl, fun c' hc' => ⟨rfl, update_of_ne hc' _ _⟩⟩
      · exact ⟨rfl, rfl, rfl, fun _ _ => ⟨rfl, rfl⟩⟩
  | _ => exact ⟨rfl, rfl, rfl, fun _ _ => ⟨rfl, rfl⟩⟩

/-- A request in one of the places is one that was put on the list. -/
theorem accepted_of_place {s : St} (hinv : Inv s) {p : Place} (hc : c ∈ s.place p) :
    ∃ pc, s.subs[c]? = some pc ∧ pc.accepted := by
  have hheld : c ∈ s.books.held := by
    rw [← Multiset.count_pos, count_books_held]
    have hpos : 0 < (s.place p).count c := List.count_pos_iff.mpr hc
    cases p <;> omega
  have hacc : c ∈ s.books.accepted := by
    rw [hinv.balanced.accepted_eq]
    exact Multiset.mem_add.mpr (.inl hheld)
  have hmem : c ∈ (s.accepted : Multiset ReqId) := hacc
  rw [hinv.sub.accepted_eq] at hmem
  obtain ⟨pc, hpc, hp⟩ := mem_positions.mp (Finset.mem_val.mp hmem)
  exact ⟨pc, hpc, hp⟩

/-- **What waits carries its call.** -/
theorem Carried.of_place (h : Carried d F) (hinv : Inv F.q) {p : Place} (hc : c ∈ F.q.place p) :
    ∃ call, F.calls[c]? = some call ∧ Carries d call (F.reqs c) := by
  obtain ⟨pc, hpc, hacc⟩ := accepted_of_place hinv hc
  obtain ⟨call, hcall, hat⟩ := h.subs c pc hpc
  exact ⟨call, hcall, hat.carries hacc⟩

theorem number_hands {w : Worker} {e : ReqId × Nat} (h : e ∈ number w) : e.1 ∈ w.hands := by
  rcases w with - | ⟨run, wpc⟩
  · cases h
  · cases wpc <;> first | (cases h; exact List.mem_singleton_self _) | cases h

/-- A new call does not move the others. -/
theorem getElem?_calls {calls : List SubmitCall} (h : calls[c]? = some call)
    (call' : SubmitCall) : (calls ++ [call'])[c]? = some call := by
  rw [List.getElem?_append_left (List.getElem?_eq_some_iff.mp h).1]
  exact h

/-- What a call meets at its entry. -/
theorem atPc_submitEntry (stopping : Bool) :
    AtPc d call m req (submitEntry stopping call.args) := by
  unfold submitEntry
  split_ifs with hnull hdev hstop
  · exact fun h0 => absurd h0 (by decide)
  · exact fun h0 => absurd h0 (by decide)
  · exact fun h0 => absurd h0 (by decide)
  · simp only [SubmitCall.args, Bool.or_eq_true, not_or, Bool.not_eq_true,
      Option.isNone_eq_false_iff] at hnull
    exact ⟨rfl, hnull.1.1, hnull.1.2⟩

theorem Carried.submit (h : Carried d F) (call : SubmitCall) :
    Carried d { F with
      q := { F.q with subs := F.q.subs ++ [submitEntry F.q.stopping call.args] }
      calls := F.calls ++ [call] } := by
  refine ⟨?_, ?_, h.number, ?_, ?_⟩
  · simp [h.length]
  · intro c pc hpc
    rcases Nat.lt_or_ge c F.q.subs.length with hlt | hge
    · rw [List.getElem?_append_left hlt] at hpc
      obtain ⟨call', hcall', hat⟩ := h.subs c pc hpc
      exact ⟨call', getElem?_calls hcall' call, hat⟩
    · have hc : c = F.q.subs.length := by
        have hlt := (List.getElem?_eq_some_iff.mp hpc).1
        rw [List.length_append, List.length_singleton] at hlt
        exact Nat.le_antisymm (Nat.lt_succ_iff.mp hlt) hge
      subst hc
      rw [List.getElem?_concat_length] at hpc
      obtain rfl := Option.some.inj hpc
      refine ⟨call, ?_, atPc_submitEntry _⟩
      show (F.calls ++ [call])[F.q.subs.length]? = some call
      rw [← h.length, List.getElem?_concat_length]
  · refine h.posts.imp ?_
    rintro e w ⟨hid, call', hcall', hcarries⟩
    exact ⟨hid, call', getElem?_calls hcall' call, hcarries⟩
  · refine h.callbacks.imp ?_
    rintro e w ⟨hrc, call', hcall', hpriv⟩
    exact ⟨hrc, call', getElem?_calls hcall' call, hpriv⟩

/-- The submitter's step reaches the queue's list and the submitters only. -/
theorem SubMove.rest {s : St} {dev : Dev} (h : SubMove dev s c pc t) :
    t.worker = s.worker ∧ t.posted = s.posted ∧ t.done = s.done := by
  cases h with
  | wake =>
      unfold St.queueWork
      split_ifs <;> exact ⟨rfl, rfl, rfl⟩
  | _ => exact ⟨rfl, rfl, rfl⟩

theorem Carried.sub (h : Carried d F) (hinv : Inv F.q) (hpc : F.q.subs[c]? = some pc)
    (hcall : F.calls[c]? = some call) (hstep : submitStep d.dev F.q c ok pc = some t) :
    Carried d { F.writeSub d c ok call pc with q := t } := by
  obtain ⟨call', hcall', hat⟩ := h.subs c pc hpc
  obtain rfl := Option.some.inj (hcall.symm.trans hcall')
  obtain ⟨pc', hsubs, hat'⟩ := submit_atPc hat hstep
  obtain ⟨hcalls, hposts, hcallbacks, hother⟩ := writeSub_frame F d c ok call pc
  obtain ⟨hworker, hposted, hdone⟩ := SubMove.rest (submitStep_move hstep)
  refine ⟨?_, ?_, ?_, ?_, ?_⟩
  · show (F.writeSub d c ok call pc).calls.length = t.subs.length
    rw [hcalls, hsubs, List.length_set]
    exact h.length
  · intro c' pc'' hpc''
    have hpc'' : t.subs[c']? = some pc'' := hpc''
    show ∃ call', (F.writeSub d c ok call pc).calls[c']? = some call' ∧ _
    rw [hcalls]
    by_cases hc : c' = c
    · subst hc
      rw [hsubs, List.getElem?_set_self (List.getElem?_eq_some_iff.mp hpc).1] at hpc''
      obtain rfl := Option.some.inj hpc''
      exact ⟨call, hcall, hat'⟩
    · rw [hsubs, List.getElem?_set_ne (Ne.symm hc)] at hpc''
      obtain ⟨call', hcall', hat'⟩ := h.subs c' pc'' hpc''
      refine ⟨call', hcall', ?_⟩
      show AtPc d call' ((F.writeSub d c ok call pc).locals c')
        ((F.writeSub d c ok call pc).reqs c') pc''
      rw [(hother c' hc).1, (hother c' hc).2]
      exact hat'
  · intro e he
    have he : e ∈ Full.number F.q.worker := hworker ▸ he
    have hplace : e.1 ∈ F.q.place .hands := number_hands he
    show ((F.writeSub d c ok call pc).reqs e.1).wrId = e.2
    -- the worker's request is on no submitter's hands, so it is not being filled in
    by_cases hc : e.1 = c
    · obtain ⟨pc₁, hpc₁, hacc⟩ := accepted_of_place hinv hplace
      rw [hc] at hpc₁
      obtain rfl := Option.some.inj (hpc.symm.trans hpc₁)
      have hsame : (F.writeSub d c ok call pc).reqs = F.reqs := by
        cases pc <;> first | rfl | cases hacc
      rw [hsame]
      exact h.number e he
    · rw [(hother e.1 hc).2]
      exact h.number e he
  · show List.Forall₂ (IsPost d (F.writeSub d c ok call pc).calls) t.posted
      (F.writeSub d c ok call pc).posts
    rw [hcalls, hposted, hposts]
    exact h.posts
  · show List.Forall₂ (IsCallback (F.writeSub d c ok call pc).calls) t.done
      (F.writeSub d c ok call pc).callbacks
    rw [hcalls, hdone, hcallbacks]
    exact h.callbacks

/-- A completion: the callback gets the `priv` of the call. -/
theorem Carried.callback (h : Carried d F) (hinv : Inv F.q) {p : Place} (hc : c ∈ F.q.place p)
    (rc : Int) :
    List.Forall₂ (IsCallback F.calls) (F.q.done ++ [(c, rc)])
      (F.callbacks ++ [((F.reqs c).priv, rc)]) := by
  obtain ⟨call, hcall, hcarries⟩ := h.of_place hinv hc
  refine List.rel_append h.callbacks ?_
  exact .cons ⟨rfl, call, hcall, hcarries.priv⟩ .nil

/-- A step that writes nothing and gives the worker no number. -/
theorem Carried.congr (h : Carried d F) (hsubs : t.subs = F.q.subs)
    (hnumber : ∀ e ∈ Full.number t.worker, e ∈ Full.number F.q.worker)
    (hposted : t.posted = F.q.posted) (hdone : t.done = F.q.done) :
    Carried d { F with q := t } := by
  refine ⟨?_, ?_, fun e he => h.number e (hnumber e he), ?_, ?_⟩
  · exact h.length.trans (congrArg List.length hsubs.symm)
  · intro c pc hpc
    exact h.subs c pc (hsubs ▸ hpc)
  · show List.Forall₂ (IsPost d F.calls) t.posted F.posts
    rw [hposted]
    exact h.posts
  · show List.Forall₂ (IsCallback F.calls) t.done F.callbacks
    rw [hdone]
    exact h.callbacks

/-- A worker that has no number. -/
theorem number_of_none {w : Worker} {P : ReqId × Nat → Prop} (h : Full.number w = none) :
    ∀ e ∈ Full.number w, P e := by
  rw [h]
  exact fun e he => absurd he (Option.not_mem_none e)

/-- **The worker's step**: it numbers the request it has popped, posts it under
that number and completes it with its own `priv`. -/
theorem Carried.work {run : Nat} {wpc : WorkPc} {rc : Int} (h : Carried d F) (hinv : Inv F.q)
    (hrun : F.q.worker = .running run wpc) :
    Carried d { F.writeWork (.running run wpc) with q := workStep d.dev F.q run rc wpc } := by
  have hnumber := h.number
  rw [hrun] at hnumber
  cases wpc with
  | popped r =>
      refine ⟨h.length, ?_, ?_, h.posts, h.callbacks⟩
      · intro c pc hpc
        obtain ⟨call, hcall, hat⟩ := h.subs c pc hpc
        refine ⟨call, hcall, ?_⟩
        show AtPc d call (F.locals c) (update F.reqs r _ c) pc
        by_cases hc : c = r
        · subst hc
          rw [update_self]
          exact hat.withNumber _
        · rw [update_of_ne hc]
          exact hat
      · rintro e ⟨⟩
        show (update F.reqs r _ r).wrId = _
        rw [update_self]
  | counted r wrId =>
      have hplace : r ∈ F.q.place .hands := by
        rw [St.place, hrun]
        exact List.mem_singleton_self r
      obtain ⟨call, hcall, hcarries⟩ := h.of_place hinv hplace
      refine ⟨h.length, h.subs, ?_, ?_, h.callbacks⟩
      · simp only [workStep]
        split_ifs
        · exact number_of_none rfl
        · exact number_of_none rfl
      · refine List.rel_append h.posts ?_
        exact .cons ⟨hnumber _ rfl, call, hcall, hcarries⟩ .nil
  | failing r code =>
      have hplace : r ∈ F.q.place .hands := by
        rw [St.place, hrun]
        exact List.mem_singleton_self r
      exact ⟨h.length, h.subs, number_of_none rfl, h.posts, h.callback hinv hplace code⟩
  | head =>
      simp only [workStep]
      split_ifs
      · exact h.congr rfl (number_of_none rfl) rfl rfl
      · exact h.congr rfl (number_of_none rfl) rfl rfl
  | depth =>
      simp only [workStep]
      split_ifs
      · exact h.congr rfl (number_of_none rfl) rfl rfl
      · exact h.congr rfl (number_of_none rfl) rfl rfl
  | pop =>
      simp only [workStep]
      split
      · exact h.congr rfl (number_of_none rfl) rfl rfl
      · exact h.congr rfl (number_of_none rfl) rfl rfl
  | numbered r wrId =>
      simp only [workStep]
      split_ifs
      · exact h.congr rfl (number_of_none rfl) rfl rfl
      · refine h.congr rfl ?_ rfl rfl
        rw [hrun]
        exact fun _ he => he
  | stored r wrId =>
      refine h.congr rfl ?_ rfl rfl
      rw [hrun]
      exact fun _ he => he
  | postFailed r wrId code => exact h.congr rfl (number_of_none rfl) rfl rfl
  | erased r code => exact h.congr rfl (number_of_none rfl) rfl rfl
  | putting r => exact h.congr rfl (number_of_none rfl) rfl rfl

theorem Carried.clean {cpc : CleanPc} (h : Carried d F) (hinv : Inv F.q)
    (hcpc : F.q.cleaner = cpc) (hmove : CleanMove F.q cpc t) :
    Carried d { F.writeClean cpc with q := t } := by
  cases hmove with
  | @done r l =>
      have hplace : r ∈ F.q.place .failList := by
        rw [St.place, hcpc]
        exact List.mem_cons_self
      exact ⟨h.length, h.subs, h.number, h.posts, h.callback hinv hplace _⟩
  | _ => exact h.congr rfl (fun _ he => he) rfl rfl

/-- **One step keeps the contents.** -/
theorem Carried.step (h : Carried d F) (hinv : Inv F.q) (hstep : F.step d a = some G) :
    Carried d G := by
  obtain ⟨q, hq, rfl⟩ := step_eq hstep
  cases a with
  | submit call =>
      obtain rfl := Option.some.inj hq
      exact h.submit call
  | sub c ok =>
      obtain ⟨pc, hpc, hmove⟩ := Option.bind_eq_some_iff.mp hq
      obtain ⟨call, hcall, -⟩ := h.subs c pc hpc
      simp only [write, hcall, hpc]
      exact h.sub hinv hpc hcall hmove
  | start =>
      cases step_move hq with
      | start hidle hqueued => exact h.congr rfl (number_of_none rfl) rfl rfl
  | work xaErr =>
      cases step_move hq with
      | work rc hrun =>
          simp only [write, hrun]
          exact h.work hinv hrun
  | clean =>
      cases step_move hq with
      | clean hmove => exact h.clean hinv rfl hmove

/-! ### The results -/

theorem workRc_le (F : Full) (xaErr : Nat) : F.workRc d xaErr ≤ 0 := by
  unfold workRc
  split
  · exact Int.le_of_lt (post_neg _ _)
  · omega

/-- The driver's own post fails. -/
theorem postFails_action (F : Full) (a : Label) : PostFails F.q (F.action d a) := by
  cases a with
  | work xaErr =>
      refine ⟨workRc_le F xaErr, ?_⟩
      intro hposting
      rcases hw : F.q.worker with - | ⟨run, wpc⟩
      · rw [hw] at hposting
        cases hposting
      · rw [hw] at hposting
        cases wpc with
        | counted r wrId =>
            simp only [workRc, hw]
            exact (post_neg _ _).ne
        | _ => cases hposting
  | _ => trivial

/-- What every reachable state meets. -/
structure Good (d : UrmaDev) (F : Full) : Prop where
  wake : WakeInv d.dev F.q
  fast : FailsFast F.q
  carried : Carried d F

theorem good_init (d : UrmaDev) (allocated : Bool) : Good d (init allocated) where
  wake := ⟨inv_initIoQueue _, counters_initIoQueue _, queueAlive_initIoQueue _,
    fun _ hne => absurd rfl hne⟩
  fast := ⟨rfl, nofun, nofun⟩
  carried := ⟨rfl, nofun, nofun, .nil, .nil⟩

theorem Good.step (h : Good d F) (hstep : F.step d a = some G) : Good d G := by
  have hcarried := h.carried.step h.wake.inv hstep
  obtain ⟨q, hq, rfl⟩ := step_eq hstep
  have hw := h.wake
  exact ⟨⟨hw.inv.step hq, hw.counters.step hw.inv hq, hw.alive.step hw.inv hq,
    hw.awake.step hw.alive hw.inv hw.counters hq⟩,
    h.fast.step hw.inv (postFails_action F a) hq, hcarried⟩

theorem Good.of_run {as : List Label} (h : Good d F) (hrun : run (Full.step d) F as = some G) :
    Good d G :=
  run_invariant h (fun _ _ _ hF _ => hF.step) (runOk_trivial _ as) hrun

/-- The record says which bytes of the ramdisk and of the peer's memory the call
asked for, over the integers, and the post refuses it for no fault of its own. -/
structure Exact (d : UrmaDev) (call : SubmitCall) (w : IoReq) : Prop where
  peer : call.peer = some w.peer
  io : call.io = some w.io
  offset : w.byteOffset.toNat = w.io.lba.toNat * d.logicalBlockSize.toNat
  length : w.len.toNat = w.io.blockCount.toNat * d.logicalBlockSize.toNat
  inside : w.byteOffset.toNat + w.len.toNat ≤ d.ramdiskSize.toNat
  address : w.localUbva.toNat = d.ubvaAddr.toNat + w.byteOffset.toNat
  refused : urmaBlkdevPostJettyWr d.seg w = -EOPNOTSUPP

/-- `urma_blkdev_map_io` adds the offset to the segment's address without
wrapping. -/
theorem mapIo_address {lbs blockCount : UInt32} {size ubva lba : UInt64}
    (h : urmaBlkdevMapIo lbs size ubva lba blockCount = .ok m) :
    m.localUbva.toNat = ubva.toNat + m.byteOffset.toNat := by
  unfold urmaBlkdevMapIo at h
  split_ifs at h
  dsimp only at h
  split_ifs at h with hrange hbytes hubva
  obtain rfl := Except.ok.inj h
  rw [gt_iff_lt, UInt64.lt_iff_toNat_lt, UInt64.toNat_sub_of_le _ _ (by
    rw [UInt64.le_iff_toNat_le]
    exact Nat.le_of_lt_succ (UInt64.toNat_lt _)), Nat.not_lt] at hubva
  have hmax : Blkdev.u64Max.toNat = 2 ^ 64 - 1 := rfl
  have hoff := UInt64.toNat_lt (lba * lbs.toUInt64)
  show (ubva + lba * lbs.toUInt64).toNat = _
  rw [UInt64.toNat_add]
  refine Nat.mod_eq_of_lt ?_
  omega

theorem Carries.exact (h : Carries d call req) : Exact d call req := by
  have hio : call.io.getD default = req.io := by
    rw [h.io]
    rfl
  have hmapping := h.mapping
  simp only [UrmaDev.mapCall, SubmitCall.args, hio] at hmapping
  obtain ⟨-, -, hoffset, hlength, hinside⟩ := mapIo_ok hmapping
  refine ⟨h.peer, h.io, hoffset, hlength, ?_, mapIo_address hmapping, ?_⟩
  · exact (congrArg₂ (· + ·) hoffset hlength).trans_le hinside
  · have hjetty : req.peer.jetty.isNone = false := by
      rw [Option.isNone_eq_false_iff]
      exact h.jetty
    simp [urmaBlkdevPostJettyWr, h.seg, hjetty]

/-- The callbacks get the statuses of the completions. -/
theorem Carried.statuses (h : Carried d F) :
    F.q.done.map Prod.snd = F.callbacks.map Prod.snd := by
  rw [← List.forall₂_eq_eq_eq, List.forall₂_map_left_iff, List.forall₂_map_right_iff]
  exact h.callbacks.imp fun _ _ hcallback => hcallback.1.symm

/-- What has been posted and completed so far. -/
structure Delivered (d : UrmaDev) (F : Full) : Prop where
  /-- What was posted is what the calls asked for, under the numbers of `posted`. -/
  posts : List.Forall₂ (fun e w => w.wrId = e.2 ∧ ∃ call, F.calls[e.1]? = some call ∧
    Exact d call w) F.q.posted F.posts
  /-- A callback gets the `priv` of its call. -/
  callbacks : List.Forall₂ (IsCallback F.calls) F.q.done F.callbacks
  /-- No callback reports success. -/
  failed : ∀ e ∈ F.callbacks, e.2 < 0
  /-- Nothing is in flight but what is in the worker's hands. -/
  alone : F.q.inflightReqs.entries = F.q.worker.tracked

/-- **What the direct-IO queue delivers**, in every run of any number of submitters,
the worker and the cleanup. -/
theorem reachable_delivered (d : UrmaDev) (allocated : Bool) (as : List Label) (F : Full)
    (h : run (Full.step d) (init allocated) as = some F) : Delivered d F := by
  have hgood := (good_init d allocated).of_run h
  refine ⟨?_, hgood.carried.callbacks, ?_, hgood.fast.alone⟩
  · refine hgood.carried.posts.imp ?_
    rintro e w ⟨hid, call, hcall, hcarries⟩
    exact ⟨hid, call, hcall, hcarries.exact⟩
  · intro e he
    have hmem : e.2 ∈ F.q.done.map Prod.snd := by
      rw [hgood.carried.statuses]
      exact List.mem_map_of_mem he
    obtain ⟨e', he', hrc⟩ := List.mem_map.mp hmem
    exact hrc ▸ hgood.fast.done_neg e' he'

/-- What the worker leaves alone. -/
def SameCalls (s t : St) : Prop :=
  t.subs = s.subs ∧ t.accepted = s.accepted ∧ t.stopping = s.stopping

theorem sameCalls_worker {s : St} {dev : Dev} {act : Action} (ha : act.byWorker)
    (h : DirectIo.step dev s act = some t) : SameCalls s t := by
  cases step_move h with
  | enter args => cases ha
  | sub ok hpc hmove => cases ha
  | clean hmove => cases ha
  | start hidle hqueued => exact ⟨rfl, rfl, rfl⟩
  | @work run wpc rc hrun =>
      obtain ⟨hsubs, haccepted, -, -, -, hstopping, -⟩ := workStep_frame dev s run rc wpc
      exact ⟨hsubs, haccepted, hstopping⟩

theorem byWorker_action (F : Full) (ha : a.byWorker) : (F.action d a).byWorker := by
  cases a <;> first | rfl | cases ha

/-- A worker that cannot go on rests. -/
theorem rests_of_stuck (h : ∀ b : Label, b.byWorker → F.step d b = none) : F.q.Rests := by
  have hidle : F.q.worker = .idle := by
    rcases hw : F.q.worker with - | ⟨run, wpc⟩
    · rfl
    · have hnone := h (.work 0) rfl
      simp [Full.step, action, DirectIo.step, hw] at hnone
  refine ⟨hidle, ?_⟩
  rcases hq : F.q.queued with - | run
  · rfl
  · have hnone := h .start rfl
    simp [Full.step, action, DirectIo.step, workStart, hidle, hq] at hnone

theorem depth_pos (d : UrmaDev) : 0 < d.dev.queueDepth.toNat := by
  refine Nat.pos_of_ne_zero ?_
  intro h0
  have h0 : initQueueDepth d.queueDepth = 0 := UInt32.toNat.inj h0
  unfold initQueueDepth at h0
  split_ifs at h0 with hne
  · exact hne h0
  · cases h0

/-- **The worker alone fails all that was accepted**: from any reachable state in
which the device is in use and no submitter is about to call `queue_work`, the
worker can take at most `workLeft` steps, and when it has no step left, both
counters are 0 and every request that was accepted has been completed once, with
an error. -/
theorem worker_fails_all (d : UrmaDev) (allocated : Bool) (as bs : List Label) (F G : Full)
    (h : run (Full.step d) (init allocated) as = some F) (hstop : F.q.stopping = false)
    (hadded : ∀ c : ReqId, F.q.subs[c]? ≠ some .added)
    (hbs : ∀ b ∈ bs, b.byWorker) (hrun : run (Full.step d) F bs = some G) :
    bs.length ≤ F.q.workLeft ∧
      ((∀ b : Label, b.byWorker → G.step d b = none) →
        G.q.pending = 0 ∧ G.q.inflight = 0 ∧
          ∀ c ∈ F.q.accepted, G.q.doneCount c = 1 ∧ ∀ e ∈ G.q.done, e.1 = c → e.2 < 0) := by
  have hF := (good_init d allocated).of_run h
  have hok : RunOk (Full.step d) (fun _ b => b.byWorker) F bs :=
    runOk_of_forall (fun b hb _ => hbs b hb) F
  have hstep : ∀ F₁ b F₂, SameCalls F.q F₁.q → b.byWorker = true → Full.step d F₁ b = some F₂ →
      SameCalls F.q F₂.q ∧ F₂.q.workLeft < F₁.q.workLeft := by
    intro F₁ b F₂ hsame hb hF₂
    obtain ⟨q, hq, rfl⟩ := step_eq hF₂
    have hact := byWorker_action (d := d) F₁ hb
    obtain ⟨h₁, h₂, h₃⟩ := sameCalls_worker hact hq
    exact ⟨⟨h₁.trans hsame.1, h₂.trans hsame.2.1, h₃.trans hsame.2.2⟩, workLeft_lt hact hq⟩
  have hsame : SameCalls F.q G.q :=
    run_invariant ⟨rfl, rfl, rfl⟩ (fun F₁ b F₂ h₁ hb hF₂ => (hstep F₁ b F₂ h₁ hb hF₂).1) hok hrun
  refine ⟨?_, ?_⟩
  · have hle := run_length_le hstep ⟨rfl, rfl, rfl⟩ hok hrun
    omega
  · intro hstuck
    have hG := hF.of_run hrun
    obtain ⟨hsubs, haccepted, hstopping⟩ := hsame
    obtain ⟨hlist, hinflight, hdone⟩ := hG.fast.rests hG.wake (depth_pos d)
      (hstopping.trans hstop) (fun c => hsubs ▸ hadded c) (rests_of_stuck hstuck)
    refine ⟨?_, hinflight, ?_⟩
    · rw [hG.wake.counters.pending_eq, hlist]
      rfl
    · intro c hc
      exact ⟨hdone c (haccepted ▸ hc), fun e he _ => hG.fast.done_neg e he⟩

namespace Small

/-- A registered device of eight blocks at address `0x10000`. -/
def device : UrmaDev where
  ramdiskSize := 4096
  ubvaAddr := 0x10000
  logicalBlockSize := 512
  seg := true
  ubDev := true
  queueDepth := 4

/-- A call for two blocks from block `lba` on. -/
def twoBlocks (lba : UInt64) (priv : Nat) : SubmitCall where
  dev := true
  peer := some ⟨List.replicate 16 7, some 99⟩
  io := some ⟨ioWrite, lba, 2, 0x8000, 5⟩
  done := true
  priv := priv

/-- Two calls are accepted and a third is turned away for its range; the worker
posts the first. -/
def posting : List Label :=
  List.flatten
    [.submit (twoBlocks 3 40) :: List.replicate 7 (.sub 0 true),
      .submit (twoBlocks 6 41) :: List.replicate 7 (.sub 1 true),
      [.submit (twoBlocks 7 42), .sub 2 true], [.start], List.replicate 7 (.work 0)]

/-- The worker's way to its rest from there. -/
def finishing : List Label := List.replicate 18 (.work 0)

theorem delivered_posting :
    ∃ F, run (Full.step device) (init true) posting = some F ∧
      (F.posts.map fun w => (w.byteOffset, w.len, w.localUbva, w.wrId)) =
        [(1536, 1024, 0x10600, 1)] ∧
      Delivered device F := by
  obtain ⟨F, hrun, htest⟩ := exists_of_run_any (δ := Full.step device) (init true) posting
    (fun F => (F.posts.map fun w => (w.byteOffset, w.len, w.localUbva, w.wrId)) ==
      [(1536, 1024, 0x10600, 1)]) (by decide +kernel)
  exact ⟨F, hrun, eq_of_beq htest, reachable_delivered device true posting F hrun⟩

/-- From there the worker takes 18 steps, and both callbacks have been called. -/
theorem worker_fails_both :
    ∃ F G, run (Full.step device) (init true) posting = some F ∧
      run (Full.step device) F finishing = some G ∧
      G.callbacks = [(40, -EOPNOTSUPP), (41, -EOPNOTSUPP)] ∧ finishing.length ≤ F.q.workLeft ∧
      ∀ c ∈ F.q.accepted, G.q.doneCount c = 1 := by
  obtain ⟨F, hF, htest⟩ := exists_of_run_any (δ := Full.step device) (init true) posting
    (fun F => (!F.q.stopping && F.q.subs.all SubPc.beforeWq) &&
      (run (Full.step device) F finishing).any fun G =>
        G.q.Drained && G.callbacks == [(40, -EOPNOTSUPP), (41, -EOPNOTSUPP)]) (by decide +kernel)
  obtain ⟨hF', hG'⟩ := (Bool.and_eq_true _ _).mp htest
  obtain ⟨hstop, hsubs⟩ := (Bool.and_eq_true _ _).mp hF'
  obtain ⟨G, hG, htest'⟩ := exists_of_run_any F finishing _ hG'
  obtain ⟨hdrained, hcallbacks⟩ := (Bool.and_eq_true _ _).mp htest'
  obtain ⟨hqueued, hidle⟩ := drained_iff.mp hdrained
  obtain ⟨hlength, hend⟩ := worker_fails_all device true posting finishing F G hF
    (by simpa using hstop)
    (fun c hc => by cases List.all_eq_true.mp hsubs _ (List.mem_of_getElem? hc))
    (fun b hb => by rw [List.eq_of_mem_replicate hb]; rfl) hG
  refine ⟨F, G, hF, hG, eq_of_beq hcallbacks, hlength, ?_⟩
  intro c hc
  refine ((hend ?_).2.2 c hc).1
  intro b hb
  cases b with
  | start => simp [Full.step, action, DirectIo.step, workStart, hidle, hqueued]
  | work xaErr => simp [Full.step, action, DirectIo.step, hidle]
  | _ => cases hb

end Small

end Full

end DirectIo

end DirectStorage
