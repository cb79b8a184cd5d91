/-
DirectStorage/DaemonMain.lean

The daemon from its command line to its exit (`userspace-nbd/src/nbd_ramdisk.c`):
`setup_nbd`, `cleanup` and `main`, with `ramdisk_backend_create` and
`ramdisk_backend_destroy` as far as they acquire and release.

Every part keeps its own ledger: the manager's handles are those of
`UrmaResources`, the control server's those of `CtrlStart`, and what the process
holds itself (the backend's mutex and memory, the NBD device, the two ends of the
socket pair and the NBD thread) is a `Holdings`, because `main` keeps one field
for each and asks the field before it releases.  While the control server runs,
clients make calls on the manager (`MgrCall`), any number of them and also while
`setup_nbd` fails.  These calls and `serve_nbd` are taken to return, and
`pthread_join` of the NBD thread too: its socket has been closed.

Wherever the start-up fails, `main` jumps to `cleanup`, which knows from the fields
what there is.  There are two ways in which the daemon does not come to its exit
(`Ending`).  If the control thread cannot be created, `ramdisk_ctrl_server_start`
joins it all the same, which is undefined.  And `cleanup` joins the control thread,
which serves one client after the other and does not look up before a client has
closed its connection.

Main results: `daemonMain_ended`, which of this happens, what the exit status says
and what is left at the exit; and `process_initial`, the daemon whose threads
`DaemonThreads` describes is the one that `main` has set up.
-/
import DirectStorage.CtrlStart
import DirectStorage.DaemonThreads
import DirectStorage.NbdOptions
import DirectStorage.UrmaOwnership

namespace DirectStorage

namespace Daemon

open Ctrl (StartState StartOutcome LongPath NoThread ServerKind ramdiskCtrlServerStart
  ramdiskCtrlServerStop)
open Urma (Host)

/-! ### The NBD side -/

/-- What the process holds itself. -/
inductive ProcKind
  | mutex
  | memory
  | nbdFd
  | appSock
  | kernelSock
  | nbdThread
  deriving DecidableEq

/-- How the calls of `setup_nbd` turn out; `none` is success, and `pthreadCreate` is
the code that `pthread_create` returns. -/
structure NbdOutcome where
  openDevice : Option Errno
  socketpair : Option Errno
  setBlksize : Option Errno
  setSize : Option Errno
  setSock : Option Errno
  pthreadCreate : Nat

/-- `setup_nbd`; nobody looks at the result of `NBD_SET_FLAGS`. -/
def setupNbd (k : NbdOutcome) (h : Holdings ProcKind) : Int × Holdings ProcKind :=
  match k.openDevice with
  | some e => (-e.code, h)
  | none =>
      let h := h.acquire .nbdFd
      match k.socketpair with
      | some e => (-e.code, h)
      | none =>
          let h := (h.acquire .appSock).acquire .kernelSock
          match k.setBlksize, k.setSize, k.setSock with
          | some e, _, _ => (-e.code, h)
          | none, some e, _ => (-e.code, h)
          | none, none, some e => (-e.code, h)
          | none, none, none =>
              if k.pthreadCreate = 0 then (0, h.acquire .nbdThread) else (-k.pthreadCreate, h)

/-- The part of `cleanup` between the control server and the manager. -/
def cleanupNbd (h : Holdings ProcKind) : Holdings ProcKind :=
  (((h.release .appSock).release .kernelSock).release .nbdThread).release .nbdFd

/-! ### `main` -/

/-- What the daemon consists of. -/
structure Main where
  held : Holdings ProcKind
  backend : Backend
  host : Host
  ctrl : StartState

/-- After `memset(&ctx, 0, sizeof(ctx))`. -/
def Main.entry (errno : Int) : Main :=
  ⟨Holdings.start, Backend.cleared, Host.start, .entry .zeroed errno⟩

/-- A call that the control thread makes on the manager for a client, as far as
handles are concerned. -/
inductive MgrCall
  | enable
  | disable
  | peerConnect (info : PeerConnectInfo) (out : Host.ConnectOutcome)
  | peerDisconnect (peerId : UInt64)

def MgrCall.run (s : Host) : MgrCall → Host
  | enable => s.enable.2
  | disable => s.disable.2
  | peerConnect info out => (s.peerConnect info out).2
  | peerDisconnect peerId => (s.peerDisconnect peerId).2

/-- What `main` meets on its way: the answers of the system, `errno` before the
control server is started, and the clients of the control server. -/
structure MainOutcome where
  mutexRc : Int
  block : UInt64
  mgr : Host.InitEnv
  errno : Int
  ctrl : StartOutcome
  nbd : NbdOutcome
  calls : List MgrCall
  /-- A client keeps its connection open for ever. -/
  clientStays : Bool

/-- The server's thread has been joined without having been created. -/
def JoinedUncreated (s : StartState) : Prop :=
  .release (.thread, s.server.thread) ∈ s.ledger.log ∧
    ¬ Acquired s.ledger.log (.thread, s.server.thread)

instance (s : StartState) : Decidable (JoinedUncreated s) := inferInstanceAs (Decidable (_ ∧ _))

namespace Main

/-- `ramdisk_backend_create`: the mutex comes first, and goes if there is no memory. -/
def backendCreate (s : Main) (ctx : DaemonCtx) (k : MainOutcome) : Int × Main :=
  let r := ramdiskBackendCreate ctx.size ctx.blockSize k.mutexRc k.block
  let held :=
    if ctx.size = 0 ∨ validateBlockSize ctx.blockSize ≠ 0 ∨ k.mutexRc ≠ 0 then s.held
    else if k.block = 0 then (s.held.acquire .mutex).release .mutex
    else (s.held.acquire .mutex).acquire .memory
  (r.1, { s with backend := r.2, held := held })

/-- `ramdisk_backend_destroy`. -/
def backendDestroy (s : Main) : Main :=
  if !s.backend.initialized then s
  else
    { s with
      held := (s.held.release .memory).release .mutex
      backend := { s.backend with base := 0, size := 0, blockSize := 0, initialized := false } }

/-- `main` from `setup_nbd` on, to `serve_nbd` or to the label `out`. -/
def startNbd (s : Main) (k : MainOutcome) : Int × Main :=
  let r := setupNbd k.nbd s.held
  (r.1, { s with held := r.2 })

/-- From `ramdisk_ctrl_server_start` on; `none` where that joins a thread it could not
create.  Of the addresses of the backend and of the manager it matters that they are
not `NULL`. -/
def startCtrl (s : Main) (ctx : DaemonCtx) (k : MainOutcome) : Option (Int × Main) :=
  let r := ramdiskCtrlServerStart s.ctrl false (some ⟨ctx.controlSock, 1, 2⟩) k.ctrl
  if JoinedUncreated r.2 then none
  else
    let s := { s with ctrl := r.2 }
    some (if r.1 ≠ 0 then (r.1, s) else s.startNbd k)

/-- From `ramdisk_urma_mgr_init` on. -/
def startMgr (s : Main) (ctx : DaemonCtx) (k : MainOutcome) : Option (Int × Main) :=
  let r := s.host.mgrInit s.backend (some ctx.urmaCfg) k.mgr
  let s := { s with host := r.2 }
  if r.1 ≠ 0 then some (r.1, s) else s.startCtrl ctx k

/-- From `ramdisk_backend_create` on. -/
def setup (s : Main) (ctx : DaemonCtx) (k : MainOutcome) : Option (Int × Main) :=
  let r := s.backendCreate ctx k
  if r.1 ≠ 0 then some r else r.2.startMgr ctx k

/-- The clients of the control server, if there is one. -/
def clients (s : Main) (calls : List MgrCall) : Main :=
  if s.ctrl.server.initialized then { s with host := calls.foldl MgrCall.run s.host } else s

def cleanup (s : Main) : Main :=
  let s := if s.ctrl.server.initialized then { s with ctrl := ramdiskCtrlServerStop s.ctrl false }
    else s
  let s := { s with held := cleanupNbd s.held }
  let s := if s.host.initialized then { s with host := s.host.mgrDestroy } else s
  s.backendDestroy

end Main

/-- How the daemon ends. -/
inductive Ending
  /-- It exits with `status`, and this is what is left. -/
  | exit (status : Int) (left : Main)
  /-- A control thread is joined that was never created, which is undefined. -/
  | strayJoin
  /-- `cleanup` waits for the control thread, and that for its client. -/
  | waits

/-- `main`. -/
def daemonMain (options : List Opt) (k : MainOutcome) : Ending :=
  match start options with
  | .error status => .exit status (Main.entry k.errno)
  | .ok ctx =>
      match (Main.entry k.errno).setup ctx k with
      | none => .strayJoin
      | some (rc, s) =>
          if s.ctrl.server.initialized && k.clientStays then .waits
          else .exit (if rc = 0 then 0 else 1) (s.clients k.calls).cleanup

/-- The daemon as `DaemonThreads` describes it, where `main` enters `serve_nbd`. -/
def Main.process (s : Main) (io : NbdIo) : Process where
  sys := Urma.Sys.start s.backend s.host.mgr
  ctrlInit := s.ctrl.server.initialized
  running := s.ctrl.server.running
  listening := s.ctrl.server.initialized
  ctrl := if s.ctrl.server.initialized then .loop else .exited
  main := .serving
  nbd := io
  mgrFreed := false
  backendFreed := false
  answers := []

/-! ### What is held on the way -/

/-- What `setup_nbd` acquires, newest first. -/
def nbdKinds : List ProcKind := [.nbdThread, .kernelSock, .appSock, .nbdFd]

/-- **`setup_nbd`** comes to the thread with everything else in place, and returns 0
exactly then. -/
theorem setupNbd_holds {h : Holdings ProcKind} {ks : List ProcKind} (k : NbdOutcome)
    (hh : h.Holds ks) (hfresh : ∀ x ∈ nbdKinds, x ∉ ks) :
    ∃ ls, (setupNbd k h).2.Holds (ls ++ ks) ∧ ls ⊆ nbdKinds ∧
      ((setupNbd k h).1 = 0 ∧ ls = nbdKinds ∨ (setupNbd k h).1 ≠ 0 ∧ .nbdThread ∉ ls) := by
  have hfd := hh.acquire (hfresh .nbdFd (by decide))
  have happ := hfd.acquire (k := .appSock) (by simp [hfresh .appSock (by decide)])
  have hkernel := happ.acquire (k := .kernelSock) (by simp [hfresh .kernelSock (by decide)])
  have hthread := hkernel.acquire (k := .nbdThread) (by simp [hfresh .nbdThread (by decide)])
  have hneg : ∀ e : Errno, -e.code ≠ 0 := by
    intro e
    have hpos := e.pos
    omega
  unfold setupNbd
  cases k.openDevice with
  | some e => exact ⟨[], hh, by simp, .inr ⟨hneg e, by simp⟩⟩
  | none =>
      cases k.socketpair with
      | some e => exact ⟨[.nbdFd], hfd, by simp [nbdKinds], .inr ⟨hneg e, by simp⟩⟩
      | none =>
          -- from here on the descriptors are there, with or without the thread
          have hsocks : ∀ rc : Int, rc ≠ 0 → ∃ ls,
              (((h.acquire .nbdFd).acquire .appSock).acquire .kernelSock).Holds (ls ++ ks) ∧
                ls ⊆ nbdKinds ∧ (rc = 0 ∧ ls = nbdKinds ∨ rc ≠ 0 ∧ .nbdThread ∉ ls) := by
            intro rc hrc
            exact ⟨[.kernelSock, .appSock, .nbdFd], hkernel, by simp [nbdKinds],
              .inr ⟨hrc, by simp⟩⟩
          dsimp only
          split
          · exact hsocks _ (hneg _)
          · exact hsocks _ (hneg _)
          · exact hsocks _ (hneg _)
          · split_ifs with hrc
            · exact ⟨nbdKinds, hthread, fun _ hx => hx, .inl ⟨rfl, rfl⟩⟩
            · exact hsocks _ (by omega)

/-- `cleanup` closes and joins what there is. -/
theorem cleanupNbd_holds {h : Holdings ProcKind} {ls ks : List ProcKind}
    (hh : h.Holds (ls ++ ks)) (hls : ls ⊆ nbdKinds) (hfresh : ∀ x ∈ nbdKinds, x ∉ ks) :
    (cleanupNbd h).Holds ks := by
  have happ := hh.release_erase .appSock
  have hkernel := happ.release_erase .kernelSock
  have hthread := hkernel.release_erase .nbdThread
  have hfd := hthread.release_erase .nbdFd
  refine hfd.perm ((List.perm_ext_iff_of_nodup hfd.nodup ?_).mpr ?_)
  · exact (List.nodup_append.mp hh.nodup).2.1
  intro x
  rw [hthread.nodup.mem_erase_iff, hkernel.nodup.mem_erase_iff, happ.nodup.mem_erase_iff,
    hh.nodup.mem_erase_iff, List.mem_append]
  constructor
  · rintro ⟨hne₁, hne₂, hne₃, hne₄, hx | hx⟩
    · have hmem := hls hx
      simp [nbdKinds, hne₁, hne₂, hne₃, hne₄] at hmem
    · exact hx
  · intro hx
    have hne : ∀ y ∈ nbdKinds, x ≠ y := fun y hy hxy => hfresh y hy (hxy ▸ hx)
    exact ⟨hne _ (by decide), hne _ (by decide), hne _ (by decide), hne _ (by decide), .inr hx⟩

/-- What the backend is made of, while it is there. -/
def backendKinds (b : Backend) : List ProcKind := if b.initialized then [.memory, .mutex] else []

theorem not_mem_backendKinds (b : Backend) : ∀ x ∈ nbdKinds, x ∉ backendKinds b := by
  unfold backendKinds
  cases b.initialized <;> decide

namespace Main

variable {s : Main} {ctx : DaemonCtx} {k : MainOutcome} {ls : List ProcKind}

/-- What holds from the start of `main` to its `cleanup`; `ls` is what `setup_nbd`
has acquired. -/
structure Inv (s : Main) (ls : List ProcKind) : Prop where
  held : s.held.Holds (ls ++ backendKinds s.backend)
  nbd : ls ⊆ nbdKinds
  host : Host.HostInv s.host

theorem inv_entry (errno : Int) : Inv (entry errno) [] :=
  ⟨Holdings.holds_start, by simp, Host.start_inv⟩

/-- **`ramdisk_backend_create`** leaves a live backend with its mutex and its memory,
or nothing. -/
theorem backendCreate_spec (ctx : DaemonCtx) (k : MainOutcome) (hs : Inv s [])
    (hoff : s.backend.initialized = false) :
    Inv (s.backendCreate ctx k).2 [] ∧
      ((s.backendCreate ctx k).1 = 0 ↔ (s.backendCreate ctx k).2.backend.Live) := by
  have hheld : s.held.Holds [] := by
    have h := hs.held
    rwa [backendKinds, hoff] at h
  have hmutex := hheld.acquire (k := .mutex) (by simp)
  have hmemory := hmutex.acquire (k := .memory) (by simp)
  have hnot : ¬ Backend.cleared.Live := fun h => by cases h.initialized
  unfold backendCreate ramdiskBackendCreate
  dsimp only
  by_cases hsize : ctx.size = 0
  · rw [if_pos hsize, if_pos (.inl hsize)]
    exact ⟨⟨hheld, by simp, hs.host⟩, by simp [hnot]⟩
  by_cases hblock : validateBlockSize ctx.blockSize ≠ 0
  · rw [if_neg hsize, if_pos hblock, if_pos (.inr (.inl hblock))]
    exact ⟨⟨hheld, by simp, hs.host⟩, iff_of_false hblock hnot⟩
  by_cases hrc : k.mutexRc ≠ 0
  · rw [if_neg hsize, if_neg hblock, if_pos hrc, if_pos (.inr (.inr hrc))]
    exact ⟨⟨hheld, by simp, hs.host⟩, iff_of_false (by omega) hnot⟩
  have hgo : ¬ (ctx.size = 0 ∨ validateBlockSize ctx.blockSize ≠ 0 ∨ k.mutexRc ≠ 0) := by
    simp only [not_or]
    exact ⟨hsize, hblock, hrc⟩
  rw [if_neg hsize, if_neg hblock, if_neg hrc, if_neg hgo]
  by_cases hmem : k.block = 0
  · rw [if_pos hmem, if_pos hmem]
    exact ⟨⟨hmutex.release, by simp, hs.host⟩, by simp [hnot]⟩
  · rw [if_neg hmem, if_neg hmem]
    exact ⟨⟨hmemory, by simp, hs.host⟩,
      iff_of_true rfl ⟨rfl, hmem, hsize, not_not.mp hblock⟩⟩

/-- A daemon that serves: the backend is live, everything of the NBD side is there,
and its threads start where `DaemonThreads` starts them. -/
structure Serves (s : Main) : Prop where
  backend : s.backend.Live
  held : s.held.Holds (nbdKinds ++ [.memory, .mutex])
  process : ∀ io, Initial (s.process io)

theorem process_initial (h : Urma.Initial (Urma.Sys.start s.backend s.host.mgr)) (io : NbdIo) :
    Initial (s.process io) := by
  refine ⟨h, ?_, .inl rfl, rfl, rfl, rfl⟩
  unfold process
  cases s.ctrl.server.initialized with
  | true => exact .inl ⟨rfl, rfl⟩
  | false => exact .inr ⟨rfl, rfl⟩

/-- Whoever has not come to the NBD thread does not serve. -/
theorem Inv.not_serves (h : Inv s ls) (hls : .nbdThread ∉ ls) : ¬ s.Serves := by
  intro hserves
  have hthread : (s.held.field .nbdThread).isSome :=
    (hserves.held.field_iff _).mpr (by simp [nbdKinds])
  rw [h.held.field_iff, List.mem_append] at hthread
  rcases hthread with hmem | hmem
  · exact hls hmem
  · exact not_mem_backendKinds s.backend .nbdThread (by decide) hmem

/-- A start-up comes to serve exactly if its code is 0, and wherever it stops, the
fields say what is held. -/
structure Started (r : Int × Main) : Prop where
  inv : ∃ ls, Inv r.2 ls
  zero_iff : r.1 = 0 ↔ r.2.Serves

theorem started_of_early (hs : Inv s []) {rc : Int} (hrc : rc ≠ 0) : Started (rc, s) :=
  ⟨⟨[], hs⟩, iff_of_false hrc (hs.not_serves (by simp))⟩

theorem startNbd_started (hs : Inv s []) (hlive : s.backend.Live)
    (hinit : Urma.Initial (Urma.Sys.start s.backend s.host.mgr)) : Started (s.startNbd k) := by
  obtain ⟨ls, hheld, hls, hcode⟩ := setupNbd_holds k.nbd hs.held (not_mem_backendKinds s.backend)
  have hinv : Inv (s.startNbd k).2 ls := ⟨hheld, hls, hs.host⟩
  refine ⟨⟨ls, hinv⟩, ?_⟩
  rcases hcode with ⟨hzero, rfl⟩ | ⟨hrc, hthread⟩
  · refine iff_of_true hzero ⟨hlive, ?_, fun io => process_initial hinit io⟩
    have hkinds : backendKinds s.backend = [.memory, .mutex] := by
      rw [backendKinds, hlive.initialized]
      rfl
    rw [← hkinds]
    exact hheld
  · exact iff_of_false hrc (hinv.not_serves hthread)

/-- `main` comes to `ramdisk_ctrl_server_start`. -/
def CtrlReached (s : Main) (ctx : DaemonCtx) (k : MainOutcome) : Prop :=
  (s.backendCreate ctx k).1 = 0 ∧
    (s.host.mgrInit (s.backendCreate ctx k).2.backend (some ctx.urmaCfg) k.mgr).1 = 0

/-- The control server, once it is started. -/
def ctrlStarted (s : Main) (ctx : DaemonCtx) (k : MainOutcome) : StartState :=
  (ramdiskCtrlServerStart s.ctrl false (some ⟨ctx.controlSock, 1, 2⟩) k.ctrl).2

/-- What a start-up comes to: it is `Started`, with the control server as it was or as
`ramdisk_ctrl_server_start` leaves it. -/
structure SetUp (s : Main) (ctx : DaemonCtx) (k : MainOutcome) (r : Int × Main) : Prop where
  started : Started r
  ctrl : r.2.ctrl = s.ctrl ∨ ¬ JoinedUncreated (s.ctrlStarted ctx k) ∧
    r.2.ctrl = s.ctrlStarted ctx k

theorem startCtrl_setUp (ctx : DaemonCtx) (k : MainOutcome) (hs : Inv s []) (hlive : s.backend.Live)
    (hinit : Urma.Initial (Urma.Sys.start s.backend s.host.mgr)) :
    s.startCtrl ctx k = none ∧ JoinedUncreated (s.ctrlStarted ctx k) ∨
      ∃ r, s.startCtrl ctx k = some r ∧ SetUp s ctx k r := by
  by_cases hjoin : JoinedUncreated (s.ctrlStarted ctx k)
  · exact .inl ⟨if_pos hjoin, hjoin⟩
  right
  refine ⟨_, if_neg hjoin, ?_⟩
  have hs' : Inv { s with ctrl := s.ctrlStarted ctx k } [] := ⟨hs.held, hs.nbd, hs.host⟩
  split_ifs with hrc
  · exact ⟨started_of_early hs' hrc, .inr ⟨hjoin, rfl⟩⟩
  · exact ⟨startNbd_started hs' hlive hinit, .inr ⟨hjoin, rfl⟩⟩

theorem startMgr_setUp (ctx : DaemonCtx) (k : MainOutcome) (hs : Inv s []) (hlive : s.backend.Live)
    (hhost : s.host.initialized = false) :
    (s.startMgr ctx k = none ∧
        (s.host.mgrInit s.backend (some ctx.urmaCfg) k.mgr).1 = 0 ∧
        JoinedUncreated (s.ctrlStarted ctx k)) ∨
      ∃ r, s.startMgr ctx k = some r ∧ SetUp s ctx k r := by
  have hempty := hs.host.empty hhost
  obtain ⟨hinv, -⟩ := Host.mgrInit_inv s.backend (some ctx.urmaCfg) k.mgr hempty hhost
  have hs' : Inv { s with host := (s.host.mgrInit s.backend (some ctx.urmaCfg) k.mgr).2 } [] :=
    ⟨hs.held, hs.nbd, hinv⟩
  unfold startMgr
  dsimp only
  split_ifs with hrc
  · exact .inr ⟨_, rfl, started_of_early hs' hrc, .inl rfl⟩
  · have hrc := not_not.mp hrc
    obtain ⟨-, hinit⟩ := Host.mgrInit_initial hempty hlive (Prod.ext hrc rfl)
    rcases startCtrl_setUp ctx k hs' hlive hinit with ⟨hnone, hjoin⟩ | ⟨r, hr, h⟩
    · exact .inl ⟨hnone, hrc, hjoin⟩
    · exact .inr ⟨r, hr, h.started, h.ctrl⟩

/-- **The start-up of the daemon** joins a thread that was never created, or comes to
serve exactly if its code is 0. -/
theorem setup_setUp (ctx : DaemonCtx) (k : MainOutcome) (hs : Inv s [])
    (hoff : s.backend.initialized = false) (hhost : s.host.initialized = false) :
    (s.setup ctx k = none ∧ s.CtrlReached ctx k ∧ JoinedUncreated (s.ctrlStarted ctx k)) ∨
      ∃ r, s.setup ctx k = some r ∧ SetUp s ctx k r := by
  obtain ⟨hcreate, hlive⟩ := backendCreate_spec ctx k hs hoff
  unfold setup
  dsimp only
  split_ifs with hrc
  · exact .inr ⟨_, rfl, started_of_early hcreate hrc, .inl rfl⟩
  · have hrc := not_not.mp hrc
    rcases startMgr_setUp ctx k hcreate (hlive.mp hrc) hhost with
      ⟨hnone, hmgr, hjoin⟩ | ⟨r, hr, h⟩
    · exact .inl ⟨hnone, ⟨hrc, hmgr⟩, hjoin⟩
    · exact .inr ⟨r, hr, h.started, h.ctrl⟩

/-- A thread that was never created is joined exactly if the control server is reached
and does so. -/
theorem setup_none_iff (ctx : DaemonCtx) (k : MainOutcome) (hs : Inv s [])
    (hoff : s.backend.initialized = false) (hhost : s.host.initialized = false) :
    s.setup ctx k = none ↔ s.CtrlReached ctx k ∧ JoinedUncreated (s.ctrlStarted ctx k) := by
  constructor
  · intro hnone
    rcases setup_setUp ctx k hs hoff hhost with ⟨-, hreached, hjoin⟩ | ⟨r, hr, -⟩
    · exact ⟨hreached, hjoin⟩
    · cases hnone.symm.trans hr
  · rintro ⟨⟨hcreate, hmgr⟩, hjoin⟩
    unfold setup
    dsimp only
    rw [if_neg (not_not.mpr hcreate)]
    unfold startMgr
    dsimp only
    exact (if_neg (not_not.mpr hmgr)).trans (if_pos hjoin)

/-! ### The end -/

theorem run_inv {h : Host} (hh : Host.HostInv h) (call : MgrCall) :
    Host.HostInv (call.run h) := by
  cases call with
  | enable =>
      have hcall : h.call .enable = some (h.enable.1, h.enable.2) := rfl
      exact (hh.call hcall).1
  | disable =>
      have hcall : h.call .disable = some (h.disable.1, h.disable.2) := rfl
      exact (hh.call hcall).1
  | peerConnect info out => exact Host.peerConnect_inv info out hh
  | peerDisconnect peerId => exact Host.peerDisconnect_inv peerId hh

/-- The clients leave the manager in order. -/
theorem clients_inv (hs : Inv s ls) (calls : List MgrCall) : Inv (s.clients calls) ls := by
  have hrun : Host.HostInv (calls.foldl MgrCall.run s.host) := by
    have hhost := hs.host
    generalize s.host = h at hhost
    induction calls generalizing h with
    | nil => exact hhost
    | cons call calls ih => exact ih _ (run_inv hhost call)
  unfold clients
  split_ifs
  · exact ⟨hs.held, hs.nbd, hrun⟩
  · exact hs

theorem clients_ctrl (s : Main) (calls : List MgrCall) : (s.clients calls).ctrl = s.ctrl := by
  unfold clients
  split_ifs <;> rfl

theorem stop_of_off {c : StartState} (h : c.server.initialized = false) :
    ramdiskCtrlServerStop c false = c :=
  if_pos (.inr h)

/-- `cleanup` asks before it stops and destroys, and so do those it calls. -/
theorem cleanup_eq (s : Main) :
    s.cleanup = backendDestroy
      { held := cleanupNbd s.held
        backend := s.backend
        host := s.host.mgrDestroy
        ctrl := ramdiskCtrlServerStop s.ctrl false } := by
  have hhost : s.host.initialized = false → s.host.mgrDestroy = s.host := by
    intro h
    unfold Host.mgrDestroy
    rw [h]
    rfl
  unfold cleanup
  by_cases h₁ : s.ctrl.server.initialized = true
  · rw [if_pos h₁]
    by_cases h₂ : s.host.initialized = true
    · exact congrArg backendDestroy (if_pos h₂)
    · rw [hhost (by simpa using h₂)]
      exact congrArg backendDestroy (if_neg h₂)
  · rw [if_neg h₁, stop_of_off (by simpa using h₁)]
    by_cases h₂ : s.host.initialized = true
    · exact congrArg backendDestroy (if_pos h₂)
    · rw [hhost (by simpa using h₂)]
      exact congrArg backendDestroy (if_neg h₂)

theorem backendDestroy_holds (hheld : s.held.Holds (backendKinds s.backend)) :
    s.backendDestroy.held.Holds [] ∧ s.backendDestroy.backend.initialized = false ∧
      s.backendDestroy.host = s.host ∧ s.backendDestroy.ctrl = s.ctrl := by
  unfold backendDestroy backendKinds at *
  cases hinit : s.backend.initialized with
  | false =>
      rw [hinit] at hheld
      exact ⟨hheld, hinit, rfl, rfl⟩
  | true =>
      rw [hinit] at hheld
      exact ⟨hheld.release.release, rfl, rfl, rfl⟩

/-- **`cleanup`** releases all that the process and the manager hold. -/
theorem cleanup_spec (hs : Inv s ls) :
    s.cleanup.held.Holds [] ∧ Owns s.cleanup.host.ledger [] [] ∧
      s.cleanup.backend.initialized = false ∧ s.cleanup.host.initialized = false ∧
      s.cleanup.ctrl = ramdiskCtrlServerStop s.ctrl false := by
  obtain ⟨hempty, hoff⟩ := Host.mgrDestroy_empty hs.host
  have hnbd := cleanupNbd_holds hs.held hs.nbd (not_mem_backendKinds s.backend)
  rw [cleanup_eq]
  obtain ⟨hheld, hbackend, hhost, hctrl⟩ := backendDestroy_holds
    (s := ⟨cleanupNbd s.held, s.backend, s.host.mgrDestroy,
      ramdiskCtrlServerStop s.ctrl false⟩) hnbd
  rw [hhost, hctrl]
  exact ⟨hheld, hempty.owns, hbackend, hoff, rfl⟩

end Main

/-! ### The control server -/

section CtrlServer

open Ctrl

variable (server : ServerRec) (errno : Int) (backend urma : Nat) {path : List UInt8}
  {k : StartOutcome}

/-- The path does not fit into the server, or there is no descriptor. -/
theorem startServer_unopened (h : socketPathSize ≤ path.length ∨ k.socket ≠ none) :
    (startServer (.entry server errno) path backend urma k).2.ledger = Ledger.empty ∧
      (startServer (.entry server errno) path backend urma k).2.server.initialized = false := by
  unfold startServer
  by_cases hlen : path.length ≥ socketPathSize
  · rw [if_pos hlen]
    exact ⟨rfl, rfl⟩
  · obtain ⟨e, he⟩ := Option.ne_none_iff_exists'.mp (h.resolve_left hlen)
    rw [if_neg hlen, he]
    exact ⟨rfl, rfl⟩

/-- The path fits into the server and not into the address. -/
theorem startServer_left (h : LongPath path k) :
    (startServer (.entry server errno) path backend urma k).2.ledger =
        Ledger.empty.acquire .fd [] ∧
      (startServer (.entry server errno) path backend urma k).2.server.initialized = false := by
  obtain ⟨hlong, hshort, hsocket⟩ := h
  unfold startServer
  rw [if_neg (Nat.not_le.mpr hshort), hsocket]
  dsimp only
  rw [if_pos hlong]
  exact ⟨rfl, rfl⟩

/-- `bind` or `listen` fails. -/
theorem startServer_closed (hlen : path.length < sunPathSize) (hsocket : k.socket = none)
    (h : k.bind ≠ none ∨ k.listen ≠ none) :
    (startServer (.entry server errno) path backend urma k).2.ledger =
        (Ledger.empty.acquire .fd []).release (.fd, 0) ∧
      (startServer (.entry server errno) path backend urma k).2.server.initialized = false := by
  have hshort : ¬ path.length ≥ socketPathSize := Nat.not_le.mpr (Nat.lt_trans hlen (by decide))
  unfold startServer
  rw [if_neg hshort, hsocket]
  dsimp only
  rw [if_neg (Nat.not_le.mpr hlen)]
  cases hbind : k.bind with
  | some e => exact ⟨rfl, rfl⟩
  | none =>
      obtain ⟨e, he⟩ := Option.ne_none_iff_exists'.mp (h.resolve_left (not_not.mpr hbind))
      dsimp only
      rw [he]
      exact ⟨rfl, rfl⟩

instance : Decidable (LongPath path k) := inferInstanceAs (Decidable (_ ∧ _))

/-- What is live when a server has been started and stopped: the descriptor, if the path
is in the gap between the two checks, and nothing otherwise. -/
def leftOpen (path : List UInt8) (k : StartOutcome) : List (ServerKind × Nat) :=
  if LongPath path k then [(.fd, 0)] else []

/-- A server that is not initialised is not stopped either. -/
theorem not_joined_of_off {s : StartState} {leaves : List (ServerKind × Nat)}
    (howns : Owns s.ledger leaves []) (hoff : s.server.initialized = false)
    (hthread : ∀ n, .release (.thread, n) ∉ s.ledger.log) :
    ¬ JoinedUncreated s ∧ Owns (ramdiskCtrlServerStop s false).ledger leaves [] := by
  refine ⟨fun hjoin => hthread _ hjoin.1, ?_⟩
  rw [Main.stop_of_off hoff]
  exact howns

/-- **A start and a stop**: the thread is joined without having been created exactly if
everything but the thread is there; otherwise the log is in order, and nothing is live
but what the gap between the two checks leaves open. -/
theorem startServer_stop (path : List UInt8) (k : StartOutcome) :
    let s := (startServer (.entry server errno) path backend urma k).2
    (NoThread path k ∧ JoinedUncreated s) ∨
      ¬ NoThread path k ∧ ¬ JoinedUncreated s ∧
        Owns (ramdiskCtrlServerStop s false).ledger (leftOpen path k) [] := by
  intro s
  by_cases hearly : socketPathSize ≤ path.length ∨ k.socket ≠ none
  · obtain ⟨hledger, hoff⟩ := startServer_unopened server errno backend urma hearly
    have hleft : leftOpen path k = [] := by
      refine if_neg ?_
      rintro ⟨-, hshort, hsocket⟩
      rcases hearly with hlong | hfailed
      · exact absurd hlong (Nat.not_le.mpr hshort)
      · exact hfailed hsocket
    refine .inr ⟨?_, ?_⟩
    · rintro ⟨hlen, hsocket, -⟩
      rcases hearly with hlong | hfailed
      · exact absurd (Nat.lt_of_lt_of_le hlen (by decide)) (Nat.not_lt.mpr hlong)
      · exact hfailed hsocket
    · refine not_joined_of_off ?_ hoff ?_
      · rw [hleft, hledger]
        exact Owns.empty
      · rw [hledger]
        exact fun n => List.not_mem_nil
  obtain ⟨hshort, hsocket⟩ := not_or.mp hearly
  have hsocket := not_not.mp hsocket
  by_cases hlong : sunPathSize ≤ path.length
  · obtain ⟨hledger, hoff⟩ := startServer_left server errno backend urma
      (⟨hlong, Nat.not_le.mp hshort, hsocket⟩ : LongPath path k)
    have hleft : leftOpen path k = [(.fd, 0)] := if_pos ⟨hlong, Nat.not_le.mp hshort, hsocket⟩
    refine .inr ⟨fun hno => absurd hno.1 (Nat.not_lt.mpr hlong), ?_⟩
    refine not_joined_of_off ?_ hoff ?_
    · rw [hleft, hledger]
      exact owns_opened
    · rw [hledger]
      simp [Ledger.acquire, Ledger.empty]
  have hlen := Nat.not_le.mp hlong
  have hleft : leftOpen path k = [] := if_neg fun h => hlong h.1
  by_cases hrefused : k.bind ≠ none ∨ k.listen ≠ none
  · obtain ⟨hledger, hoff⟩ := startServer_closed server errno backend urma hlen hsocket hrefused
    refine .inr ⟨?_, ?_⟩
    · rintro ⟨-, -, hbind, hlisten, -⟩
      exact hrefused.elim (fun h => h hbind) fun h => h hlisten
    · refine not_joined_of_off ?_ hoff ?_
      · rw [hleft, hledger]
        exact owns_opened.releaseLeaf
      · rw [hledger]
        simp [Ledger.acquire, Ledger.release, Ledger.empty]
  obtain ⟨hbind, hlisten⟩ := not_or.mp hrefused
  have hbind := not_not.mp hbind
  have hlisten := not_not.mp hlisten
  have heq : startServer (.entry server errno) path backend urma k = _ :=
    startServer_listening hlen hsocket hbind hlisten
  have heq : s = _ := congrArg Prod.snd heq
  cases hthread : k.pthreadCreate with
  | some e =>
      -- the thread that is joined here was never created
      rw [hthread] at heq
      refine .inl ⟨⟨hlen, hsocket, hbind, hlisten, by rw [hthread]; simp⟩, ?_⟩
      rw [heq]
      refine ⟨List.mem_append_right _ List.mem_cons_self, ?_⟩
      show ¬ Acquired _ (ServerKind.thread, k.threadLeft)
      rw [← any_acquires_iff]
      simp [ramdiskCtrlServerStop, StartState.close, StartState.join, Ledger.acquire,
        Ledger.release, Ledger.empty, LedgerEvent.acquires]
  | none =>
      rw [hthread] at heq
      refine .inr ⟨fun hno => hno.2.2.2.2 hthread, ?_, ?_⟩
      · rintro ⟨hjoin, -⟩
        rw [heq] at hjoin
        simp [Ledger.acquire, Ledger.empty] at hjoin
      · have hfd : Owns _ [(ServerKind.fd, 0), (ServerKind.thread, 1)] [] :=
          owns_started.perm (List.Perm.swap _ _ _)
        rw [hleft, heq]
        exact hfd.releaseLeaf.releaseLeaf

end CtrlServer

/-! ### The result -/

/-- What holds when the daemon exits. -/
structure Exits (options : List Opt) (k : MainOutcome) (status : Int) (left : Main) : Prop where
  /-- The status: 2 for the command line, 0 if the daemon has served, and 1. -/
  refused_iff : status = 2 ↔ ∃ e, start options = .error e
  served_iff : status = 0 ↔ ∃ ctx rc s, start options = .ok ctx ∧
    (Main.entry k.errno).setup ctx k = some (rc, s) ∧ s.Serves
  /-- What the process and the manager hold is released, each handle once and before
  those it was created from. -/
  held : Owns left.held.ledger [] []
  host : Owns left.host.ledger [] []
  /-- So is what the control server holds, if its path is not in the gap between the two
  checks. -/
  ctrl : (∀ ctx path, start options = .ok ctx → ctx.controlSock = some path →
      ¬ LongPath path k.ctrl) → Owns left.ctrl.ledger [] []
  off : left.backend.initialized = false ∧ left.host.initialized = false

/-- How the daemon ends. -/
structure Ended (options : List Opt) (k : MainOutcome) : Prop where
  exits : ∀ status left, daemonMain options k = .exit status left → Exits options k status left
  /-- A thread is joined that was never created: the control thread, when it is all that
  is missing of the control server. -/
  stray_iff : daemonMain options k = .strayJoin ↔ ∃ ctx path, start options = .ok ctx ∧
    (Main.entry k.errno).CtrlReached ctx k ∧ ctx.controlSock = some path ∧ NoThread path k.ctrl
  /-- The control server runs, and one of its clients stays. -/
  waits_iff : daemonMain options k = .waits ↔ k.clientStays = true ∧ ∃ ctx rc s,
    start options = .ok ctx ∧ (Main.entry k.errno).setup ctx k = some (rc, s) ∧
      s.ctrl.server.initialized = true

theorem start_error {options : List Opt} {status : Int} (h : start options = .error status) :
    status = 2 := by
  unfold start at h
  dsimp only at h
  split_ifs at h
  exact (Except.error.inj h).symm

/-- `ramdisk_ctrl_server_start` on the server that `main` has cleared. -/
theorem ctrlStarted_entry (errno : Int) (ctx : DaemonCtx) (k : MainOutcome) :
    (Main.entry errno).ctrlStarted ctx k = ctx.controlSock.elim (.entry .zeroed errno)
      fun path => (Ctrl.startServer (.entry .zeroed errno) path 1 2 k.ctrl).2 := by
  unfold Main.ctrlStarted
  cases ctx.controlSock <;> rfl

theorem joinedUncreated_iff (errno : Int) (ctx : DaemonCtx) (k : MainOutcome) :
    JoinedUncreated ((Main.entry errno).ctrlStarted ctx k) ↔
      ∃ path, ctx.controlSock = some path ∧ NoThread path k.ctrl := by
  rw [ctrlStarted_entry]
  cases ctx.controlSock with
  | none =>
      refine iff_of_false (fun h => List.not_mem_nil h.1) ?_
      rintro ⟨path, ⟨⟩, -⟩
  | some path =>
      rcases startServer_stop .zeroed errno 1 2 path k.ctrl with
        ⟨hno, hjoin⟩ | ⟨hno, hjoin, -⟩
      · exact iff_of_true hjoin ⟨path, rfl, hno⟩
      · refine iff_of_false hjoin ?_
        rintro ⟨_, ⟨⟩, h⟩
        exact hno h

/-- What is left of the control server. -/
theorem ctrl_stopped {errno : Int} {ctx : DaemonCtx} {k : MainOutcome} {c : StartState}
    (hctrl : c = (Main.entry errno).ctrl ∨
      ¬ JoinedUncreated ((Main.entry errno).ctrlStarted ctx k) ∧
        c = (Main.entry errno).ctrlStarted ctx k)
    (hpath : ∀ path, ctx.controlSock = some path → ¬ LongPath path k.ctrl) :
    Owns (ramdiskCtrlServerStop c false).ledger [] [] := by
  rcases hctrl with rfl | ⟨hjoin, rfl⟩
  · exact Owns.empty
  · rw [ctrlStarted_entry] at hjoin ⊢
    cases hsock : ctx.controlSock with
    | none => exact Owns.empty
    | some path =>
        rw [hsock] at hjoin
        rcases startServer_stop .zeroed errno 1 2 path k.ctrl with
          ⟨-, h⟩ | ⟨-, -, howns⟩
        · exact absurd h hjoin
        · rwa [leftOpen, if_neg (hpath path hsock)] at howns

/-- A command line that is refused. -/
theorem ended_of_error {options : List Opt} {e : Int} (k : MainOutcome)
    (hstart : start options = .error e) : Ended options k := by
  have hmain : daemonMain options k = .exit 2 (Main.entry k.errno) := by
    unfold daemonMain
    rw [hstart, start_error hstart]
  have hnot : ∀ ctx, start options ≠ .ok ctx := fun ctx hctx => by cases hstart.symm.trans hctx
  have hentry := Main.inv_entry k.errno
  constructor <;> rw [hmain]
  · rintro status left ⟨⟩
    refine ⟨iff_of_true rfl ⟨e, hstart⟩, iff_of_false (by decide) ?_, hentry.held.owns,
      (hentry.host.empty rfl).owns, fun _ => Owns.empty, rfl, rfl⟩
    rintro ⟨ctx, -, -, hctx, -⟩
    exact hnot ctx hctx
  · refine iff_of_false Ending.noConfusion ?_
    rintro ⟨ctx, -, hctx, -⟩
    exact hnot ctx hctx
  · refine iff_of_false Ending.noConfusion ?_
    rintro ⟨-, ctx, -, -, hctx, -⟩
    exact hnot ctx hctx

/-- The daemon comes to its `cleanup`. -/
theorem exits_of_setUp {options : List Opt} {ctx : DaemonCtx} {k : MainOutcome} {rc : Int}
    {s : Main} (hstart : start options = .ok ctx)
    (hsetup : (Main.entry k.errno).setup ctx k = some (rc, s))
    (h : Main.SetUp (Main.entry k.errno) ctx k (rc, s)) :
    Exits options k (if rc = 0 then 0 else 1) (s.clients k.calls).cleanup := by
  obtain ⟨⟨⟨ls, hinv⟩, hzero⟩, hctrl⟩ := h
  obtain ⟨hheld, hhost, hbackend, hoff, hstop⟩ := Main.cleanup_spec (Main.clients_inv hinv k.calls)
  refine ⟨?_, ?_, hheld.owns, hhost, ?_, hbackend, hoff⟩
  · refine iff_of_false ?_ ?_
    · split_ifs <;> decide
    · rintro ⟨e, he⟩
      cases hstart.symm.trans he
  · constructor
    · intro hrc
      refine ⟨ctx, rc, s, hstart, hsetup, hzero.mp ?_⟩
      by_contra hne
      rw [if_neg hne] at hrc
      cases hrc
    · rintro ⟨ctx', rc', s', hctx, hs', hserves⟩
      obtain rfl := Except.ok.inj (hstart.symm.trans hctx)
      obtain ⟨rfl, rfl⟩ := Prod.mk.inj (Option.some.inj (hsetup.symm.trans hs'))
      exact if_pos (hzero.mpr hserves)
  · intro hpath
    rw [hstop, Main.clients_ctrl]
    exact ctrl_stopped hctrl fun path => hpath ctx path hstart

variable {options : List Opt} {ctx : DaemonCtx} {k : MainOutcome}

/-- The start-up joins a thread that was never created. -/
theorem setup_none_iff_noThread (hstart : start options = .ok ctx) :
    (Main.entry k.errno).setup ctx k = none ↔ ∃ ctx path, start options = .ok ctx ∧
      (Main.entry k.errno).CtrlReached ctx k ∧ ctx.controlSock = some path ∧
        NoThread path k.ctrl := by
  rw [Main.setup_none_iff ctx k (Main.inv_entry k.errno) rfl rfl, joinedUncreated_iff, hstart]
  constructor
  · rintro ⟨hreached, path, hsock, hno⟩
    exact ⟨ctx, path, rfl, hreached, hsock, hno⟩
  · rintro ⟨_, path, ⟨⟩, hreached, hsock, hno⟩
    exact ⟨hreached, path, hsock, hno⟩

theorem ended_of_stray (hstart : start options = .ok ctx)
    (hnone : (Main.entry k.errno).setup ctx k = none) : Ended options k := by
  have hmain : daemonMain options k = .strayJoin := by
    unfold daemonMain
    rw [hstart]
    dsimp only
    rw [hnone]
  constructor <;> rw [hmain]
  · exact fun _ _ h => Ending.noConfusion h
  · exact iff_of_true rfl ((setup_none_iff_noThread hstart).mp hnone)
  · refine iff_of_false Ending.noConfusion ?_
    rintro ⟨-, ctx', rc, s, hctx, hs, -⟩
    obtain rfl := Except.ok.inj (hstart.symm.trans hctx)
    cases hnone.symm.trans hs

theorem ended_of_setUp {rc : Int} {s : Main} (hstart : start options = .ok ctx)
    (hsetup : (Main.entry k.errno).setup ctx k = some (rc, s))
    (h : Main.SetUp (Main.entry k.errno) ctx k (rc, s)) : Ended options k := by
  have hmain : daemonMain options k =
      if s.ctrl.server.initialized && k.clientStays then .waits
      else .exit (if rc = 0 then 0 else 1) (s.clients k.calls).cleanup := by
    unfold daemonMain
    rw [hstart]
    dsimp only
    rw [hsetup]
  have hstray := mt (setup_none_iff_noThread (k := k) hstart).mpr (by rw [hsetup]; simp)
  have hruns : (s.ctrl.server.initialized && k.clientStays) = true ↔ k.clientStays = true ∧
      ∃ ctx rc s, start options = .ok ctx ∧ (Main.entry k.errno).setup ctx k = some (rc, s) ∧
        s.ctrl.server.initialized = true := by
    rw [Bool.and_eq_true, and_comm]
    refine and_congr_right fun _ => ⟨fun h => ⟨ctx, rc, s, hstart, hsetup, h⟩, ?_⟩
    rintro ⟨ctx', rc', s', hctx, hs', h⟩
    obtain rfl := Except.ok.inj (hstart.symm.trans hctx)
    obtain ⟨-, rfl⟩ := Prod.mk.inj (Option.some.inj (hsetup.symm.trans hs'))
    exact h
  by_cases hwait : (s.ctrl.server.initialized && k.clientStays) = true
  · rw [if_pos hwait] at hmain
    constructor <;> rw [hmain]
    · exact fun _ _ h => Ending.noConfusion h
    · exact iff_of_false Ending.noConfusion hstray
    · exact iff_of_true rfl (hruns.mp hwait)
  · rw [if_neg hwait] at hmain
    constructor <;> rw [hmain]
    · rintro status left ⟨⟩
      exact exits_of_setUp hstart hsetup h
    · exact iff_of_false Ending.noConfusion hstray
    · exact iff_of_false Ending.noConfusion fun h => hwait (hruns.mpr h)

end Daemon

end DirectStorage
