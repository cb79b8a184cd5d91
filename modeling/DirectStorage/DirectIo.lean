/-
DirectStorage/DirectIo.lean

The kernel driver's direct-IO queue (`kernel-urma/urma_blkdev.c`):
`urma_blkdev_submit_nvmet_io`, `urma_blkdev_pop_pending`,
`urma_blkdev_submit_workfn`, `urma_blkdev_done_req`, `urma_blkdev_req_put`,
`urma_blkdev_fail_queued` and `urma_blkdev_cleanup_io_queue`, as an
interleaving of any number of submitters, the submit worker and one cleanup.

Every section under `pending_lock` and every access to a shared variable
(`stopping`, `pending`, `inflight`, `next_wr_id`, `inflight_reqs`, the module
reference, the work queue) is one step.  `refcount_dec_and_test`,
`module_put` and `kfree` in `req_put` are one step together: the reference is
the only one there is.  The outcomes of `try_module_get`, `kzalloc`,
`xa_store` and `urma_blkdev_post_jetty_wr` are part of the label.

A submitter and its request have the same number, the position of the call.
The work item is queued at most once and never runs twice at a time; its runs
are numbered as they are queued.  `flush_workqueue` waits for the runs queued
before it.  What a request only carries along (its peer, address, length and
`priv`) is left out.  `next_wr_id` does not wrap.
-/
import DirectStorage.BlkdevMap
import DirectStorage.Xarray
import DirectStorage.Lts

namespace DirectStorage

namespace DirectIo

open Blkdev (urmaBlkdevMapIo)

/-- A call of `urma_blkdev_submit_nvmet_io`, and its request. -/
abbrev ReqId := Nat

/-- The fields of the device that do not change while it is in use;
`urmaReady` is `dev->seg && dev->ub_dev`. -/
structure Dev where
  ramdiskSize : UInt64
  ubvaAddr : UInt64
  logicalBlockSize : UInt32
  urmaReady : Bool
  queueDepth : UInt32

/-- The arguments of `urma_blkdev_submit_nvmet_io` that it looks at. -/
structure SubmitArgs where
  peerNull : Bool
  ioNull : Bool
  doneNull : Bool
  devNull : Bool
  jettyNull : Bool
  dir : UInt32
  lba : UInt64
  blockCount : UInt32

/-- `URMA_BLKDEV_IO_READ` and `URMA_BLKDEV_IO_WRITE`. -/
def ioRead : UInt32 := 1
def ioWrite : UInt32 := 2

/-! ### Program points -/

/-- Where a submitter is. -/
inductive SubPc where
  /-- `stopping` was read as false. -/
  | checking (args : SubmitArgs)
  /-- About to read `pending`. -/
  | checked
  /-- `pending` was read, about to read `inflight`. -/
  | sawPending (pending : Int)
  /-- About to call `try_module_get`. -/
  | admitted
  /-- About to call `kzalloc`. -/
  | gotRef
  /-- About to take `pending_lock`. -/
  | allocated
  /-- Turned away under the lock, about to drop the request. -/
  | rejected (rc : Int)
  /-- On `pending_list`, about to call `queue_work`. -/
  | added
  | returned (rc : Int)
  /-- Called `queue_work` on a work queue that is gone. -/
  | crashed

/-- Where the worker is inside `urma_blkdev_submit_workfn`. -/
inductive WorkPc where
  /-- About to read `stopping`. -/
  | head
  /-- About to read `inflight`. -/
  | depth
  /-- About to call `urma_blkdev_pop_pending`. -/
  | pop
  | popped (r : ReqId)
  | numbered (r : ReqId) (wrId : Nat)
  | stored (r : ReqId) (wrId : Nat)
  /-- `inflight` is incremented, about to post. -/
  | counted (r : ReqId) (wrId : Nat)
  | postFailed (r : ReqId) (wrId : Nat) (rc : Int)
  /-- Erased again, about to decrement `inflight`. -/
  | erased (r : ReqId) (rc : Int)
  /-- About to call `done`. -/
  | failing (r : ReqId) (rc : Int)
  /-- `done` was called, about to drop the request. -/
  | putting (r : ReqId)

inductive Worker where
  | idle
  | running (run : Nat) (pc : WorkPc)

/-- Where the cleanup is; `l` is `to_complete`. -/
inductive CleanPc where
  | idle
  /-- `stopping` is set. -/
  | stopped
  /-- Inside `flush_workqueue`, waiting for the runs below `target`. -/
  | flushing (target : Nat)
  /-- About to take `pending_lock` in `fail_queued`. -/
  | flushed
  /-- About to call `xa_find` from `index` on. -/
  | collecting (index : Nat) (l : List ReqId)
  | found (index : Nat) (r : ReqId) (l : List ReqId)
  /-- Erased and moved to `l`, about to decrement `inflight`. -/
  | collected (index : Nat) (l : List ReqId)
  /-- In the loop over `l`; with `l` empty, `fail_queued` returns. -/
  | failing (l : List ReqId)
  | putting (r : ReqId) (l : List ReqId)
  /-- Inside `destroy_workqueue`, waiting for the last run. -/
  | draining
  /-- About to set `io_wq` to `NULL`. -/
  | destroyed
  /-- About to call `xa_destroy`. -/
  | unset
  | gone

/-- What `io_wq` points to.  A work queue that is being destroyed still
finishes its work but takes no more. -/
inductive IoWq where
  | null
  | live
  | draining
  | destroyed
  deriving DecidableEq

/-! ### The state -/

/-- The queue and everybody who works on it.  `accepted`, `done` and `posted`
record the requests that were put on `pending_list`, the calls of the `done`
callbacks and the calls of `urma_blkdev_post_jetty_wr`. -/
structure St where
  stopping : Bool
  ioWq : IoWq
  pendingList : List ReqId
  pending : Int
  inflight : Int
  nextWrId : Nat
  inflightReqs : Xarray ReqId
  /-- The run that is queued, if the work item is. -/
  queued : Option Nat
  nextRun : Nat
  worker : Worker
  cleaner : CleanPc
  subs : List SubPc
  /-- The requests that are allocated. -/
  heap : List ReqId
  moduleRefs : Int
  accepted : List ReqId
  done : List (ReqId × Int)
  posted : List (ReqId × Nat)

/-- `urma_blkdev_init_io_queue`, with the outcome of `alloc_workqueue`. -/
def initIoQueue (allocated : Bool) : Int × St :=
  (if allocated then 0 else -ENOMEM,
   { stopping := false
     ioWq := if allocated then .live else .null
     pendingList := []
     pending := 0
     inflight := 0
     nextWrId := 0
     inflightReqs := Xarray.empty
     queued := none
     nextRun := 0
     worker := .idle
     cleaner := .idle
     subs := []
     heap := []
     moduleRefs := 0
     accepted := []
     done := []
     posted := [] })

/-- The depth that `urma_blkdev_init_io_queue` sets for the module parameter. -/
def initQueueDepth (queueDepth : UInt32) : UInt32 := if queueDepth ≠ 0 then queueDepth else 1

/-- A counter, compared with the `unsigned int` queue depth. -/
def asUnsigned (v : Int) : Nat := (v % 2 ^ 32).toNat

/-- `pending + inflight >= queue_depth`. -/
def queueFull (dev : Dev) (pending inflight : Int) : Bool :=
  asUnsigned (pending + inflight) ≥ dev.queueDepth.toNat

def St.setSub (s : St) (c : ReqId) (pc : SubPc) : St := { s with subs := s.subs.set c pc }

/-- `req->done(req->priv, status)`. -/
def St.callDone (s : St) (r : ReqId) (status : Int) : St :=
  { s with done := s.done ++ [(r, status)] }

/-- `urma_blkdev_req_put`. -/
def St.reqPut (s : St) (r : ReqId) : St :=
  { s with moduleRefs := s.moduleRefs - 1, heap := s.heap.erase r }

/-- `queue_work` on a work queue that exists: an item that is queued already
stays queued once. -/
def St.queueWork (s : St) : St :=
  if s.ioWq = .live ∧ s.queued = none then
    { s with queued := some s.nextRun, nextRun := s.nextRun + 1 }
  else s

/-! ### `urma_blkdev_submit_nvmet_io` -/

/-- The entry, up to the first look at `stopping`. -/
def submitEntry (stopping : Bool) (args : SubmitArgs) : SubPc :=
  if args.peerNull || args.ioNull || args.doneNull then .returned (-EINVAL)
  else if args.devNull then .returned (-ENODEV)
  else if stopping then .returned (-ESHUTDOWN)
  else .checking args

/-- The checks between `stopping` and the counters. -/
def submitCheck (dev : Dev) (ioWq : IoWq) (args : SubmitArgs) : SubPc :=
  if !dev.urmaReady then .returned (-ENODEV)
  else if ioWq = .null then .returned (-ENODEV)
  else if args.jettyNull then .returned (-EINVAL)
  else if args.dir ≠ ioRead ∧ args.dir ≠ ioWrite then .returned (-EINVAL)
  else
    match urmaBlkdevMapIo dev.logicalBlockSize dev.ramdiskSize dev.ubvaAddr args.lba
        args.blockCount with
    | .error ret => .returned ret
    | .ok _ => .checked

/-- The section under `pending_lock`. -/
def submitLocked (dev : Dev) (s : St) (c : ReqId) : St :=
  if s.stopping then s.setSub c (.rejected (-ESHUTDOWN))
  else if queueFull dev s.pending s.inflight then s.setSub c (.rejected (-EBUSY))
  else
    { s.setSub c .added with
      pendingList := s.pendingList ++ [c]
      pending := s.pending + 1
      accepted := s.accepted ++ [c] }

/-- One step of submitter `c`, which is at `pc`; `ok` is the outcome of
`try_module_get` and of `kzalloc`. -/
def submitStep (dev : Dev) (s : St) (c : ReqId) (ok : Bool) : SubPc → Option St
  | .checking args => some (s.setSub c (submitCheck dev s.ioWq args))
  | .checked => some (s.setSub c (.sawPending s.pending))
  | .sawPending pending =>
      some (s.setSub c (if queueFull dev pending s.inflight then .returned (-EBUSY)
        else .admitted))
  | .admitted =>
      if ok then some { s.setSub c .gotRef with moduleRefs := s.moduleRefs + 1 }
      else some (s.setSub c (.returned (-ENODEV)))
  | .gotRef =>
      if ok then some { s.setSub c .allocated with heap := c :: s.heap }
      else some { s.setSub c (.returned (-ENOMEM)) with moduleRefs := s.moduleRefs - 1 }
  | .allocated => some (submitLocked dev s c)
  | .rejected rc => some ((s.setSub c (.returned rc)).reqPut c)
  | .added =>
      -- `queue_work` reads `dev->io_wq` again; the pointer may be gone by now
      match s.ioWq with
      | .null | .destroyed => some (s.setSub c .crashed)
      | .live | .draining => some (s.queueWork.setSub c (.returned 0))
  | .returned _ => none
  | .crashed => none

/-! ### `urma_blkdev_submit_workfn` -/

/-- The worker goes on at `pc`. -/
def St.workAt (s : St) (run : Nat) (pc : WorkPc) : St := { s with worker := .running run pc }

/-- The work queue starts the run that is queued. -/
def workStart (s : St) : Option St :=
  match s.worker, s.queued with
  | .idle, some run => some { s with worker := .running run .head, queued := none }
  | _, _ => none

/-- One step of the worker; `rc` is the outcome of `xa_store` and of
`urma_blkdev_post_jetty_wr`. -/
def workStep (dev : Dev) (s : St) (run : Nat) (rc : Int) : WorkPc → St
  | .head => if s.stopping then { s with worker := .idle } else s.workAt run .depth
  | .depth =>
      if asUnsigned s.inflight < dev.queueDepth.toNat then s.workAt run .pop
      else { s with worker := .idle }
  | .pop =>
      match s.pendingList with
      | [] => { s with worker := .idle }
      | r :: rest =>
          { s.workAt run (.popped r) with pendingList := rest, pending := s.pending - 1 }
  | .popped r =>
      { s.workAt run (.numbered r (s.nextWrId + 1)) with nextWrId := s.nextWrId + 1 }
  | .numbered r wrId =>
      if rc ≠ 0 then s.workAt run (.failing r rc)
      else { s.workAt run (.stored r wrId) with inflightReqs := s.inflightReqs.store wrId r }
  | .stored r wrId => { s.workAt run (.counted r wrId) with inflight := s.inflight + 1 }
  | .counted r wrId =>
      { s.workAt run (if rc ≠ 0 then .postFailed r wrId rc else .head) with
        posted := s.posted ++ [(r, wrId)] }
  | .postFailed r wrId rc =>
      { s.workAt run (.erased r rc) with inflightReqs := s.inflightReqs.erase wrId }
  | .erased r rc => { s.workAt run (.failing r rc) with inflight := s.inflight - 1 }
  | .failing r rc => (s.workAt run (.putting r)).callDone r rc
  | .putting r => (s.workAt run .head).reqPut r

/-! ### `urma_blkdev_cleanup_io_queue` -/

def St.cleanAt (s : St) (pc : CleanPc) : St := { s with cleaner := pc }

/-- `flush_workqueue` returns: no run below `target` is queued or running. -/
def St.Flushed (s : St) (target : Nat) : Bool :=
  (match s.queued with
    | none => true
    | some run => target ≤ run) &&
  match s.worker with
    | .idle => true
    | .running run _ => target ≤ run

/-- `destroy_workqueue` returns: nothing is queued or running. -/
def St.Drained (s : St) : Bool :=
  s.queued.isNone &&
  match s.worker with
    | .idle => true
    | .running _ _ => false

/-- One step of the cleanup; from `flushed` to `failing []` it is inside
`urma_blkdev_fail_queued`. -/
def cleanStep (s : St) : CleanPc → Option St
  | .idle => some { s.cleanAt .stopped with stopping := true }
  | .stopped =>
      if s.ioWq ≠ .null then some (s.cleanAt (.flushing s.nextRun)) else some (s.cleanAt .flushed)
  | .flushing target => if s.Flushed target then some (s.cleanAt .flushed) else none
  | .flushed =>
      some { s.cleanAt (.collecting 0 s.pendingList) with pendingList := [], pending := 0 }
  | .collecting index l =>
      match s.inflightReqs.find index with
      | none => some (s.cleanAt (.failing l))
      | some (index', r) => some (s.cleanAt (.found index' r l))
  | .found index r l =>
      some { s.cleanAt (.collected index (l ++ [r])) with
        inflightReqs := s.inflightReqs.erase index }
  | .collected index l =>
      some { s.cleanAt (.collecting (index + 1) l) with inflight := s.inflight - 1 }
  | .failing (r :: l) => some ((s.cleanAt (.putting r l)).callDone r (-ESHUTDOWN))
  | .putting r l => some ((s.cleanAt (.failing l)).reqPut r)
  | .failing [] =>
      if s.ioWq ≠ .null then some { s.cleanAt .draining with ioWq := .draining }
      else some (s.cleanAt .unset)
  | .draining =>
      if s.Drained then some { s.cleanAt .destroyed with ioWq := .destroyed } else none
  | .destroyed => some { s.cleanAt .unset with ioWq := .null }
  | .unset => some { s.cleanAt .gone with inflightReqs := Xarray.empty }
  | .gone => none

/-! ### The system -/

/-- A step of a submitter, of the worker or of the cleanup. -/
inductive Action where
  | submit (args : SubmitArgs)
  | sub (c : ReqId) (ok : Bool)
  | start
  | work (rc : Int)
  | clean

def step (dev : Dev) (s : St) : Action → Option St
  | .submit args => some { s with subs := s.subs ++ [submitEntry s.stopping args] }
  | .sub c ok => (s.subs[c]?).bind (submitStep dev s c ok)
  | .start => workStart s
  | .work rc =>
      match s.worker with
      | .idle => none
      | .running run pc => some (workStep dev s run rc pc)
  | .clean => cleanStep s s.cleaner

end DirectIo

end DirectStorage
