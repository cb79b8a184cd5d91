/-
DirectStorage/CtrlStart.lean

Starting and stopping the control server: `ramdisk_ctrl_server_start` and
`ramdisk_ctrl_server_stop` (`userspace-nbd/src/ramdisk_ctrl_server.c`).

What `socket`, `bind`, `listen` and `pthread_create` answer is in a
`StartOutcome`.  `errno` is part of the state, with whatever value it has on
entry; a call that succeeds and a log line may set it to some other code, but not
to 0.  The descriptor and the thread are handles of a `Ledger`: `close` and
`pthread_join` release what the fields of the server name, whether or not it was
ever acquired.  The file at the socket path, which `unlink` and `chmod` work on,
is left out.

The path is checked twice, against the 256 bytes of `socket_path` and, once there
is a descriptor, against the 108 bytes of `sun_path`.  The second check returns
`-errno` though no call has failed, and keeps the descriptor.  When there is no
thread, `ramdisk_ctrl_server_stop` is called to undo the rest, and joins it.

Main results: `startContract_iff`, when a start does what it is to do, and
`stop_of_start`, a server that was started is stopped without a trace.
-/
import DirectStorage.FullIo
import DirectStorage.Ledger

namespace DirectStorage

namespace Ctrl

/-! ### The source -/

/-- What a server acquires. -/
inductive ServerKind
  | fd
  | thread
  deriving DecidableEq

/-- `struct ramdisk_ctrl_server`; 0 is the null pointer. -/
structure ServerRec where
  socketPath : List UInt8
  listenFd : Int
  thread : Nat
  initialized : Bool
  running : Bool
  backend : Nat
  urma : Nat

/-- After `memset`. -/
def ServerRec.zeroed : ServerRec := ⟨[], 0, 0, false, false, 0, 0⟩

/-- `struct ramdisk_ctrl_server_config`. -/
structure ServerConfig where
  socketPath : Option (List UInt8)
  backend : Nat
  urma : Nat

/-- The server, `errno`, the handles, and which descriptors are bound and
listening. -/
structure StartState where
  server : ServerRec
  errno : Int
  ledger : Ledger ServerKind
  bound : List Nat
  listening : List Nat

/-- How the calls turn out; `none` is success. -/
structure StartOutcome where
  socket : Option Errno
  bind : Option Errno
  listen : Option Errno
  pthreadCreate : Option Errno
  /-- What a successful `socket` leaves in `errno`, if it changes it. -/
  socketErrno : Option Errno
  /-- What a log line leaves in `errno`, if it changes it. -/
  logErrno : Option Errno
  /-- What a failed `pthread_create` leaves in `thread`. -/
  threadLeft : Nat

/-- `sizeof(server->socket_path)` and `sizeof(addr.sun_path)`. -/
abbrev socketPathSize : Nat := 256
abbrev sunPathSize : Nat := 108

namespace StartState

/-- On entry: whatever is in the server and in `errno`, and no handles yet. -/
def entry (server : ServerRec) (errno : Int) : StartState :=
  ⟨server, errno, Ledger.empty, [], []⟩

def touchErrno (s : StartState) (e : Option Errno) : StartState :=
  { s with errno := (e.map Errno.code).getD s.errno }

/-- The number of `listen_fd`. -/
def fd (s : StartState) : Nat := s.server.listenFd.toNat

/-- A successful `socket`. -/
def openSocket (s : StartState) (k : StartOutcome) : StartState :=
  { s.touchErrno k.socketErrno with
    server := { s.server with listenFd := s.ledger.next }
    ledger := s.ledger.acquire .fd [] }

/-- `close(server->listen_fd)`. -/
def close (s : StartState) : StartState := { s with ledger := s.ledger.release (.fd, s.fd) }

/-- `pthread_join(server->thread, NULL)`. -/
def join (s : StartState) : StartState :=
  { s with ledger := s.ledger.release (.thread, s.server.thread) }

/-- A successful `pthread_create`. -/
def createThread (s : StartState) : StartState :=
  { s with
    server := { s.server with thread := s.ledger.next }
    ledger := s.ledger.acquire .thread [] }

end StartState

def ramdiskCtrlServerStop (s : StartState) (serverNull : Bool) : StartState :=
  if serverNull ∨ s.server.initialized = false then s
  else
    let s := { s with server := { s.server with running := false } }
    -- `shutdown`
    let s := { s with listening := s.listening.erase s.fd }
    let s := s.close.join
    { s with server := { s.server with initialized := false } }

/-- From the first `memset` on. -/
def startServer (s : StartState) (path : List UInt8) (backend urma : Nat) (k : StartOutcome) :
    Int × StartState :=
  let s := { s with server := ServerRec.zeroed }
  if path.length ≥ socketPathSize then (-ENAMETOOLONG, s)
  else
    let s := { s with server := { s.server with socketPath := path } }
    match k.socket with
    | some e =>
        let s := { s with server := { s.server with listenFd := -1 }, errno := e.code }
        let s := s.touchErrno k.logErrno
        (-s.errno, s)
    | none =>
        let s := s.openSocket k
        if path.length ≥ sunPathSize then (-s.errno, s)
        else
          match k.bind with
          | some e => (-e.code, { s with errno := e.code }.close)
          | none =>
              let s := { s with bound := s.fd :: s.bound }
              match k.listen with
              | some e => (-e.code, { s with errno := e.code }.close)
              | none =>
                  let s := { s with listening := s.fd :: s.listening }
                  let s := { s with server := { s.server with
                    backend := backend, urma := urma, running := true, initialized := true } }
                  match k.pthreadCreate with
                  | some e =>
                      let s := { s with server := { s.server with thread := k.threadLeft } }
                      (-e.code, ramdiskCtrlServerStop s false)
                  | none => (0, s.createThread)

def ramdiskCtrlServerStart (s : StartState) (serverNull : Bool) (config : Option ServerConfig)
    (k : StartOutcome) : Int × StartState :=
  match serverNull, config with
  | false, some ⟨some path, backend, urma⟩ =>
      if backend = 0 ∨ urma = 0 then (-EINVAL, s) else startServer s path backend urma k
  | _, _ => (-EINVAL, s)

/-! ### What a start is to do -/

/-- The server is initialised and running, its descriptor open, bound and
listening, and its thread created and not joined. -/
structure Serving (s : StartState) : Prop where
  initialized : s.server.initialized = true
  running : s.server.running = true
  opened : Live s.ledger.log (.fd, s.fd)
  bound : s.fd ∈ s.bound
  listening : s.fd ∈ s.listening
  thread : Live s.ledger.log (.thread, s.server.thread)

structure StartContract (r : Int × StartState) : Prop where
  zero_iff : r.1 = 0 ↔ Serving r.2
  failed : ¬ Serving r.2 → r.1 < 0 ∧ r.2.server.initialized = false ∧
    ∀ n, ¬ Live r.2.ledger.log (.fd, n)
  joined : ∀ n, .release (.thread, n) ∈ r.2.ledger.log → Acquired r.2.ledger.log (.thread, n)

/-- The path fits into the server and not into the address. -/
def LongPath (path : List UInt8) (k : StartOutcome) : Prop :=
  sunPathSize ≤ path.length ∧ path.length < socketPathSize ∧ k.socket = none

/-- Everything but the thread is there. -/
def NoThread (path : List UInt8) (k : StartOutcome) : Prop :=
  path.length < sunPathSize ∧ k.socket = none ∧ k.bind = none ∧ k.listen = none ∧
    k.pthreadCreate ≠ none

/-! ### How a start ends -/

section Start

variable {server : ServerRec} {errno : Int} {path : List UInt8} {backend urma : Nat}
  {k : StartOutcome}

/-- A start that fails with nothing left, having joined nothing, keeps the contract. -/
theorem contract_of_failed {r : Int × StartState} (hrc : r.1 < 0)
    (hinit : r.2.server.initialized = false) (hlive : ∀ h, ¬ Live r.2.ledger.log h)
    (hjoin : ∀ n, .release (.thread, n) ∉ r.2.ledger.log) : StartContract r where
  zero_iff := by
    constructor
    · intro h
      omega
    · intro h
      exact absurd h.opened (hlive _)
  failed := fun _ => ⟨hrc, hinit, fun n => hlive _⟩
  joined := fun n h => absurd h (hjoin n)

/-- A start that has opened nothing. -/
theorem contract_of_nothing {r : Int × StartState} (hrc : r.1 < 0)
    (hinit : r.2.server.initialized = false) (hledger : r.2.ledger = Ledger.empty) :
    StartContract r := by
  refine contract_of_failed hrc hinit ?_ ?_
  · intro h
    rw [hledger, Owns.empty.live h]
    exact List.not_mem_nil
  · intro n h
    rw [hledger] at h
    cases h

/-- The descriptor is all that is live once `socket` has succeeded. -/
theorem owns_opened :
    Owns ((Ledger.empty : Ledger ServerKind).acquire .fd []) [(.fd, 0)] [] :=
  Owns.empty.acquireLeaf ServerKind.fd (by simp)

/-- A start that has closed what it opened. -/
theorem contract_of_closed {r : Int × StartState} (hrc : r.1 < 0)
    (hinit : r.2.server.initialized = false)
    (hledger : r.2.ledger = (Ledger.empty.acquire .fd []).release (.fd, 0)) :
    StartContract r := by
  have howns : Owns r.2.ledger [] [] := by
    rw [hledger]
    exact owns_opened.releaseLeaf
  refine contract_of_failed hrc hinit ?_ ?_
  · intro h
    rw [howns.live h]
    exact List.not_mem_nil
  · intro n h
    rw [hledger] at h
    simp [Ledger.acquire, Ledger.release, Ledger.empty] at h

/-- The path does not fit into the server, or there is no descriptor. -/
theorem startServer_early (h : socketPathSize ≤ path.length ∨ k.socket ≠ none) :
    StartContract (startServer (.entry server errno) path backend urma k) := by
  unfold startServer
  by_cases hlen : path.length ≥ socketPathSize
  · rw [if_pos hlen]
    exact contract_of_nothing (Int.neg_neg_of_pos (by decide)) rfl rfl
  · obtain ⟨e, he⟩ := Option.ne_none_iff_exists'.mp (h.resolve_left hlen)
    rw [if_neg hlen, he]
    refine contract_of_nothing ?_ rfl rfl
    -- the log line may have changed `errno`, but there is a code in it
    show -((k.logErrno.map Errno.code).getD e.code) < 0
    have hpos : 0 < (k.logErrno.map Errno.code).getD e.code := by
      cases k.logErrno with
      | none => exact e.pos
      | some e' => exact e'.pos
    omega

/-- The path fits into the server only: the descriptor stays open. -/
theorem startServer_longPath (h : LongPath path k) :
    ¬ StartContract (startServer (.entry server errno) path backend urma k) := by
  obtain ⟨hlong, hshort, hsocket⟩ := h
  unfold startServer
  rw [if_neg (Nat.not_le.mpr hshort), hsocket]
  dsimp only
  rw [if_pos hlong]
  intro hcontract
  have hnot : ¬ Live (Ledger.empty.acquire ServerKind.fd []).log (.thread, 0) := by
    rw [owns_opened.live]
    decide
  obtain ⟨-, -, hclosed⟩ := hcontract.failed fun hserving => hnot hserving.thread
  exact hclosed 0 ((owns_opened.live _).mpr List.mem_cons_self)

/-- `bind` or `listen` fails: the descriptor is closed again. -/
theorem startServer_refused (hlen : path.length < sunPathSize) (hsocket : k.socket = none)
    (h : k.bind ≠ none ∨ k.listen ≠ none) :
    StartContract (startServer (.entry server errno) path backend urma k) := by
  have hlen' : path.length < socketPathSize := Nat.lt_trans hlen (by decide)
  unfold startServer
  rw [if_neg (Nat.not_le.mpr hlen'), hsocket]
  dsimp only
  rw [if_neg (Nat.not_le.mpr hlen)]
  cases hbind : k.bind with
  | some e => exact contract_of_closed (Int.neg_neg_of_pos e.pos) rfl rfl
  | none =>
      obtain ⟨e, he⟩ := Option.ne_none_iff_exists'.mp (h.resolve_left (not_not.mpr hbind))
      dsimp only
      rw [he]
      exact contract_of_closed (Int.neg_neg_of_pos e.pos) rfl rfl

/-- The server listens: all that is left is the thread. -/
theorem startServer_listening (hlen : path.length < sunPathSize) (hsocket : k.socket = none)
    (hbind : k.bind = none) (hlisten : k.listen = none) :
    startServer (.entry server errno) path backend urma k =
      match k.pthreadCreate with
      | some e => (-e.code, ramdiskCtrlServerStop
          ⟨⟨path, 0, k.threadLeft, true, true, backend, urma⟩,
            (k.socketErrno.map Errno.code).getD errno, Ledger.empty.acquire .fd [], [0], [0]⟩ false)
      | none => (0, ⟨⟨path, 0, 1, true, true, backend, urma⟩,
          (k.socketErrno.map Errno.code).getD errno,
          (Ledger.empty.acquire .fd []).acquire .thread [], [0], [0]⟩) := by
  have hlen' : path.length < socketPathSize := Nat.lt_trans hlen (by decide)
  unfold startServer
  rw [if_neg (Nat.not_le.mpr hlen'), hsocket]
  dsimp only
  rw [if_neg (Nat.not_le.mpr hlen), hbind, hlisten]
  cases k.pthreadCreate <;> rfl

/-- There is no thread, and it is joined. -/
theorem startServer_noThread (h : NoThread path k) :
    ¬ StartContract (startServer (.entry server errno) path backend urma k) := by
  obtain ⟨hlen, hsocket, hbind, hlisten, hthread⟩ := h
  obtain ⟨e, he⟩ := Option.ne_none_iff_exists'.mp hthread
  rw [startServer_listening hlen hsocket hbind hlisten, he]
  intro hcontract
  have hjoined : .release (ServerKind.thread, k.threadLeft) ∈
      (((Ledger.empty.acquire ServerKind.fd []).release (.fd, 0)).release
        (.thread, k.threadLeft)).log := List.mem_append_right _ List.mem_cons_self
  -- the only handle in the log is the descriptor
  rcases acquired_snoc.mp (hcontract.joined k.threadLeft hjoined) with hacq | ⟨ps, ⟨⟩⟩
  rcases acquired_snoc.mp hacq with hacq | ⟨ps, ⟨⟩⟩
  rcases acquired_snoc.mp hacq with ⟨ps, ⟨⟩⟩ | ⟨ps, ⟨⟩⟩

/-- Everything works out: what the server has then. -/
theorem startServer_ok (hlen : path.length < sunPathSize) (hsocket : k.socket = none)
    (hbind : k.bind = none) (hlisten : k.listen = none) (hthread : k.pthreadCreate = none) :
    startServer (.entry server errno) path backend urma k =
      (0, ⟨⟨path, 0, 1, true, true, backend, urma⟩, (k.socketErrno.map Errno.code).getD errno,
        (Ledger.empty.acquire .fd []).acquire .thread [], [0], [0]⟩) := by
  rw [startServer_listening hlen hsocket hbind hlisten, hthread]

/-- The descriptor and the thread are all that is live after a start. -/
theorem owns_started : Owns ((Ledger.empty.acquire ServerKind.fd []).acquire .thread [])
    [(.thread, 1), (.fd, 0)] [] :=
  owns_opened.acquireLeaf ServerKind.thread (by simp)

theorem contract_of_ok (hlen : path.length < sunPathSize) (hsocket : k.socket = none)
    (hbind : k.bind = none) (hlisten : k.listen = none) (hthread : k.pthreadCreate = none) :
    StartContract (startServer (.entry server errno) path backend urma k) := by
  rw [startServer_ok hlen hsocket hbind hlisten hthread]
  have hserving : Serving ⟨⟨path, 0, 1, true, true, backend, urma⟩,
      (k.socketErrno.map Errno.code).getD errno,
      (Ledger.empty.acquire .fd []).acquire .thread [], [0], [0]⟩ := by
    refine ⟨rfl, rfl, ?_, List.mem_cons_self, List.mem_cons_self, ?_⟩
    · exact (owns_started.live _).mpr (List.mem_cons_of_mem _ List.mem_cons_self)
    · exact (owns_started.live _).mpr List.mem_cons_self
  refine ⟨iff_of_true rfl hserving, fun hnot => absurd hserving hnot, ?_⟩
  -- nothing has been released yet
  intro n hrelease
  have hnone : ∀ h, LedgerEvent.release h ∉
      ((Ledger.empty.acquire ServerKind.fd []).acquire .thread []).log := by
    simp [Ledger.acquire, Ledger.empty]
  exact absurd hrelease (hnone _)

/-- A server is initialised only if every call has succeeded. -/
theorem startServer_initialized
    (h : (startServer (.entry server errno) path backend urma k).2.server.initialized = true) :
    path.length < sunPathSize ∧ k.socket = none ∧ k.bind = none ∧ k.listen = none ∧
      k.pthreadCreate = none := by
  unfold startServer at h
  by_cases hlen : path.length ≥ socketPathSize
  · rw [if_pos hlen] at h
    cases h
  rw [if_neg hlen] at h
  cases hsocket : k.socket with
  | some e =>
      rw [hsocket] at h
      cases h
  | none =>
      rw [hsocket] at h
      dsimp only at h
      by_cases hsun : path.length ≥ sunPathSize
      · rw [if_pos hsun] at h
        cases h
      rw [if_neg hsun] at h
      refine ⟨Nat.not_le.mp hsun, rfl, ?_⟩
      cases hbind : k.bind with
      | some e =>
          rw [hbind] at h
          cases h
      | none =>
          cases hlisten : k.listen with
          | some e =>
              rw [hbind, hlisten] at h
              cases h
          | none =>
              refine ⟨rfl, rfl, ?_⟩
              cases hthread : k.pthreadCreate with
              | some e =>
                  rw [hbind, hlisten, hthread] at h
                  cases h
              | none => rfl

theorem start_eq_startServer (s : StartState) (path : List UInt8) (k : StartOutcome)
    (hbackend : backend ≠ 0) (hurma : urma ≠ 0) :
    ramdiskCtrlServerStart s false (some ⟨some path, backend, urma⟩) k =
      startServer s path backend urma k :=
  if_neg (not_or.mpr ⟨hbackend, hurma⟩)

end Start

/-- **When a start does what it is to do**, with all pointers given: exactly if the
path is not one that fits into the server and not into the address, and the
thread is created once everything else is there. -/
theorem startContract_iff (server : ServerRec) (errno : Int) (path : List UInt8)
    {backend urma : Nat} (k : StartOutcome) (hbackend : backend ≠ 0) (hurma : urma ≠ 0) :
    StartContract (ramdiskCtrlServerStart (.entry server errno) false
        (some ⟨some path, backend, urma⟩) k) ↔
      ¬ LongPath path k ∧ ¬ NoThread path k := by
  rw [start_eq_startServer _ _ _ hbackend hurma]
  constructor
  · intro hcontract
    exact ⟨fun h => startServer_longPath h hcontract, fun h => startServer_noThread h hcontract⟩
  · rintro ⟨hlong, hthread⟩
    by_cases hearly : socketPathSize ≤ path.length ∨ k.socket ≠ none
    · exact startServer_early hearly
    · obtain ⟨hlen, hsocket⟩ := not_or.mp hearly
      have hsocket := not_not.mp hsocket
      have hsun : path.length < sunPathSize := by
        by_contra hge
        exact hlong ⟨Nat.not_lt.mp hge, Nat.not_le.mp hlen, hsocket⟩
      by_cases hrefused : k.bind ≠ none ∨ k.listen ≠ none
      · exact startServer_refused hsun hsocket hrefused
      · obtain ⟨hbind, hlisten⟩ := not_or.mp hrefused
        have hbind := not_not.mp hbind
        have hlisten := not_not.mp hlisten
        refine contract_of_ok hsun hsocket hbind hlisten ?_
        by_contra hnone
        exact hthread ⟨hsun, hsocket, hbind, hlisten, hnone⟩

/-- All calls succeed. -/
def StartOutcome.fine : StartOutcome := ⟨none, none, none, none, none, none, 0⟩

/-- A path of 12 characters and `bind` failing with `EACCES`. -/
theorem startContract_bind :
    StartContract (ramdiskCtrlServerStart (.entry .zeroed 0) false
      (some ⟨some (List.replicate 12 47), 1, 2⟩)
      { StartOutcome.fine with bind := some ⟨13, by decide⟩ }) := by
  refine (startContract_iff .zeroed 0 _ _ (by decide) (by decide)).mpr ⟨?_, ?_⟩
  · intro h
    exact absurd h.1 (by decide)
  · intro h
    exact absurd h.2.2.1 (by decide)

/-- With 108 characters and `errno` 0 on entry the start returns 0, and there is no
server; and a thread that cannot be created is joined. -/
theorem not_startContract :
    (ramdiskCtrlServerStart (.entry .zeroed 0) false
        (some ⟨some (List.replicate 108 47), 1, 2⟩) .fine).1 = 0 ∧
      ¬ StartContract (ramdiskCtrlServerStart (.entry .zeroed 0) false
        (some ⟨some (List.replicate 108 47), 1, 2⟩) .fine) ∧
      ¬ StartContract (ramdiskCtrlServerStart (.entry .zeroed 0) false
        (some ⟨some (List.replicate 12 47), 1, 2⟩)
        { StartOutcome.fine with pthreadCreate := some ⟨11, by decide⟩ }) := by
  refine ⟨by decide, ?_, ?_⟩
  · rw [start_eq_startServer _ _ _ (by decide) (by decide)]
    exact startServer_longPath ⟨by decide, by decide, rfl⟩
  · rw [start_eq_startServer _ _ _ (by decide) (by decide)]
    exact startServer_noThread ⟨by decide, rfl, rfl, rfl, by decide⟩

/-- **A server that was started is stopped without a trace**: the descriptor is
closed once, the thread is joined once, and nothing is live. -/
theorem stop_of_start {server : ServerRec} {errno : Int} {path : List UInt8}
    {backend urma : Nat} {k : StartOutcome} (hbackend : backend ≠ 0) (hurma : urma ≠ 0)
    (h : Serving (ramdiskCtrlServerStart (.entry server errno) false
      (some ⟨some path, backend, urma⟩) k).2) :
    let s := ramdiskCtrlServerStop (ramdiskCtrlServerStart (.entry server errno) false
      (some ⟨some path, backend, urma⟩) k).2 false
    Owns s.ledger [] [] ∧ s.server.initialized = false ∧ s.listening = [] := by
  rw [start_eq_startServer _ _ _ hbackend hurma] at h ⊢
  obtain ⟨hlen, hsocket, hbind, hlisten, hthread⟩ := startServer_initialized h.initialized
  rw [startServer_ok hlen hsocket hbind hlisten hthread]
  refine ⟨?_, rfl, rfl⟩
  have hfd : Owns _ [(ServerKind.fd, 0), (ServerKind.thread, 1)] [] :=
    owns_started.perm (List.Perm.swap _ _ _)
  exact hfd.releaseLeaf.releaseLeaf

end Ctrl

end DirectStorage
