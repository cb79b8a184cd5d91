/-
DirectStorage/CtrlCommand.lean

The command-line client (`userspace-nbd/src/ramdiskctl.c`): from the words of a
command line to the manager of a daemon and back to the exit status.

A host has any number of daemons, each under the path of its control socket.
`connect_sock` puts the path it is given into `sun_path` with `snprintf`, so of a
longer path only the first 107 bytes count.  A command line is refused with
status 2 before anything is sent, or it is one call of the client's library; its
status is 0 exactly if the call has returned 0.

`parse_u64` is `strtoull` with base 0 and without a look at what follows the
number, and the 32-bit fields are cut from its value.  `Says` describes the
command lines as they are meant to be written, with every number a C literal.

Main results: `script_exact`, a sequence of command lines over reliable
connections, or over any connections if no command has failed, does to the
daemons of the host what the calls it stands for do, and prints what they report;
`exists_says_iff`, which calls have a command; and `printStatus_injective`, the
line of `status` determines the record.
-/
import DirectStorage.CtrlFaults
import DirectStorage.CtrlStart
import DirectStorage.Eid

namespace DirectStorage

namespace Ctrl

open CText Eid Urma

/-! ### The source -/

/-- `parse_u64`. -/
def parseU64 (text : List UInt8) : UInt64 := (strtoull isSpace 0 text).1

/-- `usage`. -/
def usage (prog : List UInt8) : List UInt8 :=
  ascii "Usage: " ++ prog ++ ascii " --sock PATH COMMAND [args]\n" ++
    ascii "Commands:\n" ++
    ascii "  status\n" ++
    ascii "  enable\n" ++
    ascii "  disable\n" ++
    ascii "  peer-connect PEER_ID EID_HEX UASID SEG_VA SEG_LEN TOKEN JETTY\n" ++
    ascii "  peer-disconnect PEER_ID\n" ++
    ascii "  transfer PEER_ID REQUEST_ID LOCAL_OFF REMOTE_ADDR LEN to-hbm|from-hbm\n"

/-- The socket that is used without `--sock`. -/
def defaultSock : List UInt8 := ascii "/run/nbd-ramdisk/control.sock"

/-- `sock`, and the words from `argv[arg]` on. -/
def sockArg (argv : List (List UInt8)) : List UInt8 × List (List UInt8) :=
  if 3 < argv.length ∧ argv[1]? = some (ascii "--sock") then (argv.getD 2 [], argv.drop 3)
  else (defaultSock, argv.drop 1)

/-- The record that `peer-connect` fills from the words behind it. -/
def connectArgs (args : List (List UInt8)) : PeerConnectInfo where
  peerId := parseU64 (args.getD 0 [])
  eid := Vector.ofFn fun i => (ramdiskCtrlParseEid (args.getD 1 [])).2.getD i 0
  uasid := (parseU64 (args.getD 2 [])).toUInt32
  segVa := parseU64 (args.getD 3 [])
  segLen := parseU64 (args.getD 4 [])
  segTokenId := (parseU64 (args.getD 5 [])).toUInt32
  jettyId := (parseU64 (args.getD 6 [])).toUInt32

/-- The record that `transfer` fills. -/
def transferArgs (args : List (List UInt8)) (direction : UInt32) : UrmaTransfer where
  peerId := parseU64 (args.getD 0 [])
  requestId := parseU64 (args.getD 1 [])
  localOffset := parseU64 (args.getD 2 [])
  remoteHbmAddr := parseU64 (args.getD 3 [])
  length := (parseU64 (args.getD 4 [])).toUInt32
  direction := direction

/-- The call that a command stands for, or what is written to `stderr` before
`main` returns 2. -/
def commandCall (prog : List UInt8) : List (List UInt8) → Except (List UInt8) ClientCall
  | [] => .error (usage prog)
  | command :: args =>
      if command = ascii "status" then .ok .queryStatus
      else if command = ascii "enable" then .ok .enableUrma
      else if command = ascii "disable" then .ok .disableUrma
      else if command = ascii "peer-connect" ∧ args.length = 7 then
        if (ramdiskCtrlParseEid (args.getD 1 [])).1 ≠ 0 then
          .error (ascii "invalid EID, expected 16-byte hex string\n")
        else .ok (.peerConnect (some (connectArgs args, 0)))
      else if command = ascii "peer-disconnect" ∧ args.length = 1 then
        .ok (.peerDisconnect (parseU64 (args.getD 0 [])))
      else if command = ascii "transfer" ∧ args.length = 6 then
        if args.getD 5 [] = ascii "to-hbm" then
          .ok (.urmaTransfer (some (transferArgs args ramdiskToHbm)))
        else if args.getD 5 [] = ascii "from-hbm" then
          .ok (.urmaTransfer (some (transferArgs args hbmToRamdisk)))
        else .error []
      else .error (usage prog)

/-- The line of `status`. -/
def printStatus (st : CtrlStatus) : List UInt8 :=
  ascii "size=" ++ (printNat 10 st.size.toNat ++
    (ascii " block_size=" ++ (printNat 10 st.blockSize.toNat ++
    (ascii " urma=" ++ (printNat 10 st.urmaEnabled.toNat ++
    (ascii " peers=" ++ (printNat 10 st.peerCount.toNat ++
    (ascii " queue_depth=" ++ (printNat 10 st.queueDepth.toNat ++
    (ascii " inflight=" ++ (printNat 10 st.inflight.toNat ++
    (ascii " pending=" ++ (printNat 10 st.pending.toNat ++
    (ascii " completed=" ++ (printNat 10 st.completed.toNat ++
    (ascii " failed=" ++ (printNat 10 st.failed.toNat ++ ascii "\n")))))))))))))))))

/-- What is left of a run: the exit status and what was written. -/
structure Ran where
  status : Int
  stdout : List UInt8
  stderr : List UInt8
  deriving DecidableEq

/-- The end of `main` after a call. -/
def Reply.ran (r : Reply) : Ran where
  status := if r.rc = 0 then 0 else 1
  stdout := if r.rc = 0 then (r.status.map printStatus).getD [] else []
  stderr := []

variable {σ : Type*}

/-- The managers of the daemons of a host, by the paths they listen at. -/
abbrev Daemons (σ : Type*) := List UInt8 → Option σ

/-- `snprintf(addr.sun_path, sizeof(addr.sun_path), "%s", path)`. -/
def sunPath (path : List UInt8) : List UInt8 := path.take (sunPathSize - 1)

/-- A call of the daemon at `sock`.  Where none listens, `connect` fails, and the call
returns its error. -/
def Daemons.call (host : Daemons σ) (sock : List UInt8) (exec : σ → Reply × σ) : Ran × Daemons σ :=
  match host (sunPath sock) with
  | none => (⟨1, [], []⟩, host)
  | some mgr => ((exec mgr).1.ran, Function.update host (sunPath sock) (some (exec mgr).2))

/-- `main` of `ramdiskctl.c`. -/
def ramdiskctl (M : Manager σ) (conn : Conn) (host : Daemons σ) (argv : List (List UInt8)) :
    Ran × Daemons σ :=
  match commandCall (argv.getD 0 []) (sockArg argv).2 with
  | .error err => (⟨2, [], err⟩, host)
  | .ok c => host.call (sockArg argv).1 (c.viaSocket M conn)

/-- Commands one after the other. -/
def runScript (M : Manager σ) : Daemons σ → List (List (List UInt8) × Conn) → List Ran × Daemons σ
  | host, [] => ([], host)
  | host, line :: lines =>
      let r := ramdiskctl M line.2 host line.1
      let rest := runScript M r.2 lines
      (r.1 :: rest.1, rest.2)

example : (commandCall [] [ascii "peer-disconnect", ascii "0x10"]).toOption =
    some (.peerDisconnect 16) := by decide

/-! ### Command lines as they are meant -/

/-- A word that is a number of 64 bits. -/
def Word (text : List UInt8) (n : Nat) : Prop := Literal text n ∧ n < 2 ^ 64

/-- A word with the 32 digits of an EID, and colons and dashes anywhere. -/
def EidWord (text : List UInt8) (eid : Vector UInt8 16) : Prop :=
  (∀ c ∈ text, OverEid c) ∧ digits text = eid.toList.flatMap nibbles

/-- The commands, and the calls they stand for.  What follows the first three is not
looked at, and of the numbers for 32-bit fields the low half counts. -/
inductive Says : List (List UInt8) → ClientCall → Prop
  | status (args : List (List UInt8)) : Says (ascii "status" :: args) .queryStatus
  | enable (args : List (List UInt8)) : Says (ascii "enable" :: args) .enableUrma
  | disable (args : List (List UInt8)) : Says (ascii "disable" :: args) .disableUrma
  | peerConnect {t₀ t₁ t₂ t₃ t₄ t₅ t₆ : List UInt8} {peerId uasid segVa segLen token jetty : Nat}
      {eid : Vector UInt8 16} : Word t₀ peerId → EidWord t₁ eid → Word t₂ uasid → Word t₃ segVa →
      Word t₄ segLen → Word t₅ token → Word t₆ jetty →
      Says [ascii "peer-connect", t₀, t₁, t₂, t₃, t₄, t₅, t₆]
        (.peerConnect (some (⟨UInt64.ofNat peerId, eid, UInt32.ofNat uasid, UInt64.ofNat segVa,
          UInt64.ofNat segLen, UInt32.ofNat token, UInt32.ofNat jetty⟩, 0)))
  | peerDisconnect {t₀ : List UInt8} {peerId : Nat} : Word t₀ peerId →
      Says [ascii "peer-disconnect", t₀] (.peerDisconnect (UInt64.ofNat peerId))
  | transfer {t₀ t₁ t₂ t₃ t₄ t₅ : List UInt8} {peerId requestId offset addr len : Nat}
      {direction : UInt32} : Word t₀ peerId → Word t₁ requestId → Word t₂ offset → Word t₃ addr →
      Word t₄ len →
      t₅ = ascii "to-hbm" ∧ direction = ramdiskToHbm ∨
        t₅ = ascii "from-hbm" ∧ direction = hbmToRamdisk →
      Says [ascii "transfer", t₀, t₁, t₂, t₃, t₄, t₅]
        (.urmaTransfer (some ⟨UInt64.ofNat peerId, UInt64.ofNat requestId, UInt64.ofNat offset,
          UInt64.ofNat addr, UInt32.ofNat len, direction⟩))

/-- A whole command line, the socket it names and the call. -/
inductive Said : List (List UInt8) → List UInt8 → ClientCall → Prop
  | default {prog : List UInt8} {words : List (List UInt8)} {c : ClientCall} : Says words c →
      Said (prog :: words) defaultSock c
  | sock {prog sock : List UInt8} {words : List (List UInt8)} {c : ClientCall} : Says words c →
      Said (prog :: ascii "--sock" :: sock :: words) sock c

theorem isSpace_of_digit (d : UInt8) (h : isDigit 10 d = true) : isSpace d = false := by
  have hrange := toNat_of_isDigit h
  simp only [isSpace, ← UInt8.toNat_inj, UInt8.le_iff_toNat_le, Bool.or_eq_false_iff,
    Bool.and_eq_false_iff, decide_eq_false_iff_not, UInt8.reduceToNat]
  omega

theorem Word.parseU64 {text : List UInt8} {n : Nat} (h : Word text n) :
    parseU64 text = UInt64.ofNat n := by
  rw [Ctrl.parseU64, h.1.strtoull isSpace_of_digit h.2]

theorem Word.parseU32 {text : List UInt8} {n : Nat} (h : Word text n) :
    (Ctrl.parseU64 text).toUInt32 = UInt32.ofNat n := by
  rw [h.parseU64]
  exact UInt64.toUInt32_ofNat' n

theorem EidWord.parse {text : List UInt8} {eid : Vector UInt8 16} (h : EidWord text eid) :
    (ramdiskCtrlParseEid text).1 = 0 ∧
      (Vector.ofFn fun i : Fin 16 => (ramdiskCtrlParseEid text).2.getD i 0) = eid := by
  rw [(parsers_of_digits h.1 h.2).2]
  refine ⟨rfl, ?_⟩
  ext i hi
  simp

/-- **A command is taken for what it says.** -/
theorem Says.commandCall {words : List (List UInt8)} {c : ClientCall} (h : Says words c)
    (prog : List UInt8) : commandCall prog words = .ok c := by
  cases h with
  | status args => rw [Ctrl.commandCall, if_pos rfl]
  | enable args => rw [Ctrl.commandCall, if_neg (by decide), if_pos rfl]
  | disable args => rw [Ctrl.commandCall, if_neg (by decide), if_neg (by decide), if_pos rfl]
  | peerConnect hid heid huasid hva hlen htoken hjetty =>
      obtain ⟨hrc, heid⟩ := heid.parse
      rw [Ctrl.commandCall, if_neg (by decide), if_neg (by decide), if_neg (by decide),
        if_pos ⟨rfl, rfl⟩]
      refine (if_neg (not_not.mpr hrc)).trans ?_
      simp only [connectArgs, List.getD_cons_zero, List.getD_cons_succ, hid.parseU64, heid,
        huasid.parseU32, hva.parseU64, hlen.parseU64, htoken.parseU32, hjetty.parseU32]
  | peerDisconnect hid =>
      rw [Ctrl.commandCall, if_neg (by decide), if_neg (by decide), if_neg (by decide),
        if_neg (fun h => absurd h.1 (by decide)), if_pos ⟨rfl, rfl⟩, List.getD_cons_zero,
        hid.parseU64]
  | transfer hid hreq hoff haddr hlen hdir =>
      rw [Ctrl.commandCall, if_neg (by decide), if_neg (by decide), if_neg (by decide),
        if_neg (fun h => absurd h.1 (by decide)), if_neg (fun h => absurd h.1 (by decide)),
        if_pos ⟨rfl, rfl⟩]
      simp only [transferArgs, List.getD_cons_zero, List.getD_cons_succ, hid.parseU64,
        hreq.parseU64, hoff.parseU64, haddr.parseU64, hlen.parseU32]
      rcases hdir with ⟨rfl, rfl⟩ | ⟨rfl, rfl⟩
      · rw [if_pos rfl]
      · rw [if_neg (by decide), if_pos rfl]

/-- No command is taken for the option. -/
theorem Says.head {words : List (List UInt8)} {c : ClientCall} (h : Says words c) :
    ∃ command args, words = command :: args ∧ command ≠ ascii "--sock" := by
  cases h <;> exact ⟨_, _, rfl, by decide⟩

theorem Said.parse {argv : List (List UInt8)} {sock : List UInt8} {c : ClientCall}
    (h : Said argv sock c) :
    (sockArg argv).1 = sock ∧ commandCall (argv.getD 0 []) (sockArg argv).2 = .ok c := by
  cases h with
  | @default prog words c hsays =>
      obtain ⟨command, args, rfl, hne⟩ := hsays.head
      have hsock : sockArg (prog :: command :: args) = (defaultSock, command :: args) := by
        rw [sockArg, if_neg]
        · rfl
        · exact fun h => hne (Option.some.inj h.2)
      rw [hsock]
      exact ⟨rfl, hsays.commandCall _⟩
  | @sock prog sock words c hsays =>
      obtain ⟨command, args, rfl, -⟩ := hsays.head
      have hsock : sockArg (prog :: ascii "--sock" :: sock :: command :: args) =
          (sock, command :: args) := by
        rw [sockArg, if_pos]
        · rfl
        · exact ⟨by simp, rfl⟩
      rw [hsock]
      exact ⟨rfl, hsays.commandCall _⟩

/-! ### Commands and calls -/

variable {host : Daemons σ} {argv : List (List UInt8)} {sock : List UInt8} {c : ClientCall}

theorem ramdiskctl_said (M : Manager σ) (conn : Conn) (host : Daemons σ) (h : Said argv sock c) :
    ramdiskctl M conn host argv = host.call sock (c.viaSocket M conn) := by
  obtain ⟨hsock, hcall⟩ := h.parse
  rw [ramdiskctl, hcall]
  dsimp only
  rw [hsock]

/-- **A command over any connection**: it is the manager's call, or it fails, and the
daemon it names may have carried the call out. -/
theorem ramdiskctl_faulty (M : CManager σ) (conn : Conn) (host : Daemons σ)
    (h : Said argv sock c) :
    ramdiskctl M.toManager conn host argv = host.call sock (c.direct M.toManager) ∨
      (ramdiskctl M.toManager conn host argv).1.status = 1 ∧
        ∃ mgr left, host (sunPath sock) = some mgr ∧ Unsure M.toManager conn mgr c left ∧
          (ramdiskctl M.toManager conn host argv).2 =
            Function.update host (sunPath sock) (some left) := by
  rw [ramdiskctl_said M.toManager conn host h]
  unfold Daemons.call
  rcases hmgr : host (sunPath sock) with - | mgr
  · exact .inl rfl
  · dsimp only
    rcases viaSocket_faulty M conn mgr c with heq | ⟨hneg, hunsure⟩
    · rw [heq]
      exact .inl rfl
    · exact .inr ⟨if_neg hneg.ne, mgr, _, rfl, hunsure, rfl⟩

theorem ramdiskctl_reliable (M : CManager σ) {conn : Conn} (hconn : conn.Reliable)
    (host : Daemons σ) (h : Said argv sock c) :
    ramdiskctl M.toManager conn host argv = host.call sock (c.direct M.toManager) := by
  rw [ramdiskctl_said M.toManager conn host h]
  unfold Daemons.call
  rcases host (sunPath sock) with - | mgr
  · rfl
  · dsimp only
    rw [viaSocket_eq_direct M hconn]

/-- The calls of a script, made of the managers directly. -/
def performScript (M : Manager σ) :
    Daemons σ → List (List UInt8 × ClientCall) → List Ran × Daemons σ
  | host, [] => ([], host)
  | host, call :: calls =>
      let r := host.call call.1 (call.2.direct M)
      let rest := performScript M r.2 calls
      (r.1 :: rest.1, rest.2)

/-- **A script that succeeds has done what it says.**  With reliable connections, or
with any connections if every command has exited with 0, a sequence of command lines
does to the daemons of the host what the calls do, and prints what they report. -/
theorem script_exact (M : CManager σ) (host : Daemons σ)
    (lines : List (List (List UInt8) × Conn)) (calls : List (List UInt8 × ClientCall))
    (hsaid : List.Forall₂ (fun line call => Said line.1 call.1 call.2) lines calls)
    (hgood : (∀ line ∈ lines, line.2.Reliable) ∨
      ∀ r ∈ (runScript M.toManager host lines).1, r.status = 0) :
    runScript M.toManager host lines = performScript M.toManager host calls := by
  induction hsaid generalizing host with
  | nil => rfl
  | @cons line call lines calls hline hrest ih =>
      have hfirst : ramdiskctl M.toManager line.2 host line.1 =
          host.call call.1 (call.2.direct M.toManager) := by
        rcases hgood with hrel | hzero
        · exact ramdiskctl_reliable M (hrel line List.mem_cons_self) host hline
        · have hstatus : (ramdiskctl M.toManager line.2 host line.1).1.status = 0 :=
            hzero _ List.mem_cons_self
          rcases ramdiskctl_faulty M line.2 host hline with heq | ⟨hone, -⟩
          · exact heq
          · rw [hone] at hstatus
            exact absurd hstatus (by decide)
      have hgood' : (∀ line ∈ lines, line.2.Reliable) ∨
          ∀ r ∈ (runScript M.toManager
            (ramdiskctl M.toManager line.2 host line.1).2 lines).1, r.status = 0 := by
        rcases hgood with hrel | hzero
        · exact .inl fun line hmem => hrel line (List.mem_cons_of_mem _ hmem)
        · exact .inr fun r hmem => hzero r (List.mem_cons_of_mem _ hmem)
      have hih := ih _ hgood'
      rw [runScript, performScript, hih, hfirst]

/-! ### What can be written, and what is printed -/

/-- The calls that have a command: there is no null pointer, the reserved word is 0,
and a transfer has one of the two directions. -/
def ClientCall.Writable : ClientCall → Prop
  | .peerConnect peer => ∃ info, peer = some (info, 0)
  | .urmaTransfer xfer => ∃ x, xfer = some x ∧
      (x.direction = ramdiskToHbm ∨ x.direction = hbmToRamdisk)
  | _ => True

theorem word_decimal {text : List UInt8} {n : Nat} (htext : text = printNat 10 n)
    (hn : n < 2 ^ 64) : Word text n :=
  ⟨htext ▸ literal_decimal n, hn⟩

theorem word_hex {text : List UInt8} {n : Nat} (htext : text = ascii "0x" ++ printNat 16 n)
    (hn : n < 2 ^ 64) : Word text n :=
  ⟨htext ▸ literal_hex n, hn⟩

theorem word_u64 (x : UInt64) : Word (printNat 10 x.toNat) x.toNat :=
  word_decimal rfl x.toNat_lt

theorem word_u32 (x : UInt32) : Word (printNat 10 x.toNat) x.toNat :=
  word_decimal rfl (x.toNat_lt.trans (by decide))

theorem eidWord_format (eid : Vector UInt8 16) : EidWord (formatEid eid) eid := by
  rw [formatEid_eq]
  exact ⟨overEid_flatMap_hexByte _, digits_flatMap_hexByte _⟩

/-- **The calls that have a command** are those without a null pointer, with a zero
reserved word and a known direction. -/
theorem exists_says_iff (c : ClientCall) : (∃ words, Says words c) ↔ c.Writable := by
  constructor
  · rintro ⟨words, hsays⟩
    cases hsays with
    | peerConnect => exact ⟨_, rfl⟩
    | transfer _ _ _ _ _ hdir => exact ⟨_, rfl, hdir.imp And.right And.right⟩
    | _ => exact trivial
  · intro h
    cases c with
    | queryStatus => exact ⟨_, .status []⟩
    | enableUrma => exact ⟨_, .enable []⟩
    | disableUrma => exact ⟨_, .disable []⟩
    | peerConnect peer =>
        obtain ⟨info, rfl⟩ := h
        have hsays := Says.peerConnect (word_u64 info.peerId) (eidWord_format info.eid)
          (word_u32 info.uasid) (word_u64 info.segVa) (word_u64 info.segLen)
          (word_u32 info.segTokenId) (word_u32 info.jettyId)
        simp only [UInt64.ofNat_toNat, UInt32.ofNat_toNat] at hsays
        exact ⟨_, hsays⟩
    | peerDisconnect peerId =>
        have hsays := Says.peerDisconnect (word_u64 peerId)
        rw [UInt64.ofNat_toNat] at hsays
        exact ⟨_, hsays⟩
    | urmaTransfer xfer =>
        obtain ⟨x, rfl, hdir⟩ := h
        have hword : ∃ text, text = ascii "to-hbm" ∧ x.direction = ramdiskToHbm ∨
            text = ascii "from-hbm" ∧ x.direction = hbmToRamdisk := by
          rcases hdir with hdir | hdir
          · exact ⟨_, .inl ⟨rfl, hdir⟩⟩
          · exact ⟨_, .inr ⟨rfl, hdir⟩⟩
        obtain ⟨text, htext⟩ := hword
        have hsays := Says.transfer (word_u64 x.peerId) (word_u64 x.requestId)
          (word_u64 x.localOffset) (word_u64 x.remoteHbmAddr) (word_u32 x.length) htext
        simp only [UInt64.ofNat_toNat, UInt32.ofNat_toNat] at hsays
        exact ⟨_, hsays⟩

/-- A number ends where the text behind it begins, if that is no digit. -/
theorem field_inj {a b : Nat} {sep s t : List UInt8}
    (hsep : sep.head?.map (isDigit 10) = some false)
    (h : printNat 10 a ++ (sep ++ s) = printNat 10 b ++ (sep ++ t)) : a = b ∧ s = t := by
  have htake : ∀ n u, (printNat 10 n ++ (sep ++ u)).takeWhile (isDigit 10) = printNat 10 n := by
    intro n u
    obtain ⟨-, hdigits, -⟩ := printNat_spec (by decide : 1 < 10) (by decide) n
    rw [List.takeWhile_append_of_pos hdigits, takeWhile_of_head, List.append_nil]
    intro c hc
    obtain ⟨d, sep', rfl⟩ : ∃ d sep', sep = d :: sep' := by
      cases sep with
      | nil => cases hsep
      | cons d sep' => exact ⟨d, sep', rfl⟩
    obtain rfl := Option.some.inj hc
    exact Option.some.inj hsep
  have hprint : printNat 10 a = printNat 10 b := by
    rw [← htake a s, h, htake]
  have hnumber := congrArg (number 10) hprint
  rw [(printNat_spec (by decide : 1 < 10) (by decide) a).2.2,
    (printNat_spec (by decide : 1 < 10) (by decide) b).2.2] at hnumber
  refine ⟨hnumber, ?_⟩
  rw [hprint] at h
  exact List.append_cancel_left (List.append_cancel_left h)

/-- **The line of `status` determines the record.** -/
theorem printStatus_injective : Function.Injective printStatus := by
  intro st st' h
  unfold printStatus at h
  obtain ⟨hsize, h⟩ := field_inj (by decide) (List.append_cancel_left h)
  obtain ⟨hblock, h⟩ := field_inj (by decide) h
  obtain ⟨hurma, h⟩ := field_inj (by decide) h
  obtain ⟨hpeers, h⟩ := field_inj (by decide) h
  obtain ⟨hdepth, h⟩ := field_inj (by decide) h
  obtain ⟨hinflight, h⟩ := field_inj (by decide) h
  obtain ⟨hpending, h⟩ := field_inj (by decide) h
  obtain ⟨hcompleted, h⟩ := field_inj (by decide) h
  rw [← List.append_nil (ascii "\n")] at h
  obtain ⟨hfailed, -⟩ := field_inj (by decide) h
  obtain ⟨size, blockSize, urma, peers, depth, inflight, pending, completed, failed⟩ := st
  rw [CtrlStatus.mk.injEq]
  exact ⟨UInt64.toNat_inj.mp hsize, UInt32.toNat_inj.mp hblock, UInt32.toNat_inj.mp hurma,
    UInt32.toNat_inj.mp hpeers, UInt32.toNat_inj.mp hdepth, UInt32.toNat_inj.mp hinflight,
    UInt32.toNat_inj.mp hpending, UInt64.toNat_inj.mp hcompleted, UInt64.toNat_inj.mp hfailed⟩

/-! ### A small script -/

/-- A manager that keeps the operations it was called for and always succeeds. -/
def Small.accepting : CManager (List Op) where
  call log op := (0, log ++ [op])
  status log := ⟨4096, 512, 1, 0, 0, 0, 0, UInt64.ofNat log.length, 0⟩
  lo _ _ := Int.neg_nonpos_of_nonneg (Int.natCast_nonneg _)
  hi _ _ := Int.natCast_pos.mpr (Nat.two_pow_pos 31)

def Small.sockPath : List UInt8 := ascii "/tmp/nbd-ramdisk-control.sock"

/-- One daemon, at that path. -/
def Small.oneDaemon : Daemons (List Op) := fun path =>
  if path = Small.sockPath then some [] else none

/-- A command line with `--sock`. -/
def Small.line (words : List String) : List (List UInt8) × Conn :=
  (ascii "ramdiskctl" :: ascii "--sock" :: Small.sockPath :: words.map ascii, Small.slow)

def Small.hbm : PeerConnectInfo where
  peerId := 7
  eid := ⟨#[0, 0, 0, 0, 0, 0, 0, 0, 0, 0, 0xff, 0xff, 0x0a, 0, 0, 1], rfl⟩
  uasid := 0
  segVa := 0x100000
  segLen := 0x100000
  segTokenId := 11
  jettyId := 22

/-- The session of the README: a peer is connected and gets a block. -/
theorem script_exact_readme :
    (runScript Small.accepting.toManager Small.oneDaemon
        [Small.line ["enable"],
          Small.line ["peer-connect", "7", "00000000000000000000ffff0a000001", "0", "0x100000",
            "0x100000", "11", "22"],
          Small.line ["transfer", "7", "1", "0", "0x100000", "4096", "to-hbm"]]).2
        Small.sockPath =
      some [.enable, .peerConnect Small.hbm,
        .transferSync ⟨7, 1, 0, 0x100000, 4096, ramdiskToHbm⟩ 30000] := by
  have hzero : Word (ascii "0") 0 := word_decimal (by decide) (by decide)
  have hseven : Word (ascii "7") 7 := word_decimal (by decide) (by decide)
  have hva : Word (ascii "0x100000") 0x100000 := word_hex (by decide) (by decide)
  have heid : EidWord (ascii "00000000000000000000ffff0a000001") Small.hbm.eid := by
    refine ⟨?_, by decide⟩
    have hall : (ascii "00000000000000000000ffff0a000001").all
        (fun c => decide (OverEid c)) = true := by decide
    exact fun c hc => of_decide_eq_true (List.all_eq_true.mp hall c hc)
  rw [script_exact Small.accepting Small.oneDaemon _
    [(Small.sockPath, .enableUrma), (Small.sockPath, .peerConnect (some (Small.hbm, 0))),
      (Small.sockPath, .urmaTransfer (some ⟨7, 1, 0, 0x100000, 4096, ramdiskToHbm⟩))]]
  · rfl
  · refine .cons (.sock (.enable [])) (.cons (.sock ?_) (.cons (.sock ?_) .nil))
    · exact .peerConnect hseven heid hzero hva hva (word_decimal (by decide) (by decide))
        (word_decimal (by decide) (by decide))
    · exact .transfer hseven (word_decimal (by decide) (by decide)) hzero hva
        (word_decimal (by decide) (by decide)) (.inl ⟨rfl, rfl⟩)
  · have hslow := Small.slow_reliable
    refine .inl (List.forall_mem_cons.mpr ⟨hslow, List.forall_mem_cons.mpr ⟨hslow, ?_⟩⟩)
    exact List.forall_mem_singleton.mpr hslow

end Ctrl

end DirectStorage
