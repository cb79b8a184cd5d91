/-
DirectStorage/DaemonRefines.lean

The threads of the daemon refine the atomic service.

The control thread is in at most one call, so there is at most one operation that
the service has carried out and the daemon has not answered, or that the daemon has
begun and the service has not (`Stage`).  Every step of a thread is answered by at
most one event of the service: a pass of the NBD loop by the same pass, a refused
request by a refusal, and the step of a call that counts by the operation.

The event lies between the start of the call and its answer, so the order of the
events is one that the clients could have seen: what was answered before a request
was made comes before it.

With the real provider the network card writes to the ramdisk as well.  Neither the
daemon's threads nor the service have that, so that for this provider nothing is
said about the bytes that NBD reads.

Main results: `daemon_refines`, and what it says about the status records that
clients get (`answers_truthful`).
-/
import DirectStorage.DaemonCalls
import DirectStorage.DaemonSafe
import DirectStorage.UrmaRefines

namespace DirectStorage

namespace Daemon

open Ctrl Urma Function

variable {d t d₀ : Process} {l : Label} {ls : List Label} {S : Service}

/-! ### The relation -/

/-- Where the control thread stands against the service. -/
inductive Stage (d : Process) (S : Service) : Prop
  | between (hcall : d.ctrl.inCall = none) (hnone : ∀ c, ¬ d.sys.Waits c)
      (hanswers : S.answers = d.answers) (hagrees : Agrees d.sys S.store)
  | undecided (conn : CtrlConn) (hdr : Hdr) (op : Op) (c : CallId)
      (hctrl : d.ctrl = .calling conn hdr op c []) (hu : Undecided d.sys c op)
      (hanswers : S.answers = d.answers) (hagrees : Agrees d.sys S.store)
  | decided (conn : CtrlConn) (hdr : Hdr) (op : Op) (c : CallId) (data : List UInt8) (rc : Int)
      (hctrl : d.ctrl = .calling conn hdr op c data) (hd : Decided d.sys c rc)
      (hanswers : S.answers = d.answers ++ [⟨hdr, some op, rc, data⟩])
      (hagrees : Agrees d.sys S.store)

structure Refines (d : Process) (S : Service) : Prop where
  inv : ManagerInv d.sys
  coherent : Coherent d
  nbd : S.nbd = d.nbd
  stage : Stage d S

theorem Stage.agrees (h : Stage d S) : Agrees d.sys S.store := by
  cases h with
  | between hcall hnone hanswers hagrees => exact hagrees
  | undecided conn hdr op c hctrl hu hanswers hagrees => exact hagrees
  | decided conn hdr op c data rc hctrl hd hanswers hagrees => exact hagrees

/-- Outside a call the service has answered what the daemon has. -/
theorem Stage.outside (h : Stage d S) (hcall : d.ctrl.inCall = none) :
    S.answers = d.answers ∧ ∀ c, ¬ d.sys.Waits c := by
  cases h with
  | between hcall' hnone hanswers hagrees => exact ⟨hanswers, hnone⟩
  | undecided conn hdr op c hctrl hu hanswers hagrees =>
      rw [hctrl] at hcall
      cases hcall
  | decided conn hdr op c data rc hctrl hd hanswers hagrees =>
      rw [hctrl] at hcall
      cases hcall

/-- The stage depends on the manager, the control thread and the answers. -/
theorem Stage.congr (h : Stage d S) (hsys : t.sys = d.sys) (hctrl : t.ctrl = d.ctrl)
    (hanswers : t.answers = d.answers) : Stage t S := by
  cases h with
  | between hcall hnone hans hagrees =>
      exact .between (hctrl ▸ hcall) (hsys ▸ hnone) (hanswers ▸ hans) (hsys ▸ hagrees)
  | undecided conn hdr op c hctrl' hu hans hagrees =>
      exact .undecided conn hdr op c (hctrl.trans hctrl') (hsys ▸ hu) (hanswers ▸ hans)
        (hsys ▸ hagrees)
  | decided conn hdr op c data rc hctrl' hd hans hagrees =>
      exact .decided conn hdr op c data rc (hctrl.trans hctrl') (hsys ▸ hd) (hanswers ▸ hans)
        (hsys ▸ hagrees)

/-! ### One step -/

/-- The service answers the step, with at most one event. -/
def Answered (t : Process) (S : Service) : Prop :=
  ∃ es T, es.length ≤ 1 ∧ run Service.step S es = some T ∧ T.nbd = t.nbd ∧ Stage t T

theorem answered_silent (hnbd : S.nbd = t.nbd) (h : Stage t S) : Answered t S :=
  ⟨[], S, Nat.zero_le 1, rfl, hnbd, h⟩

theorem answered_event {T : Service} {e : Event} (he : S.step e = some T) (hnbd : T.nbd = t.nbd)
    (h : Stage t T) : Answered t S :=
  ⟨[e], T, Nat.le_refl 1, by simp [run, he], hnbd, h⟩

/-- A call in progress, as `CallStage` has it. -/
theorem answered_call {conn : CtrlConn} {hdr : Hdr} {op : Op} {c : CallId} {data : List UInt8}
    (hnbd : S.nbd = t.nbd) (hctrl : t.ctrl = .calling conn hdr op c data)
    (hdata : data = S.store.report op) (hanswers : S.answers = t.answers)
    (h : CallStage t.sys S.store c op) : Answered t S := by
  cases h with
  | undecided hu hagrees =>
      refine answered_silent hnbd (.undecided conn hdr op c ?_ hu hanswers hagrees)
      have hempty : S.store.report op = [] := by
        cases hu <;> rfl
      rw [hctrl, hdata, hempty]
  | decided o hpossible hd hagrees =>
      have hstep : S.step (.served hdr op o) =
          some ({ S with store := (S.store.exec o op).1 }.answer
            ⟨hdr, some op, (S.store.exec o op).2, S.store.report op⟩) := by
        simp only [Service.step, if_pos hpossible]
      refine answered_event hstep hnbd (.decided conn hdr op c data _ hctrl hd ?_ hagrees)
      rw [hdata]
      exact congrArg (· ++ _) hanswers

/-- The control thread sends an answer that the service has given. -/
theorem stage_respond {conn : CtrlConn} {a : CtrlAnswer} (hnone : ∀ c, ¬ d.sys.Waits c)
    (hanswers : S.answers = d.answers ++ [a]) (hagrees : Agrees d.sys S.store) :
    Stage (d.respond conn a) S := by
  refine .between ?_ hnone hanswers hagrees
  show CtrlPc.inCall (if _ then _ else _) = none
  split_ifs <;> rfl

theorem Undecided.busy {s : Sys} {c : CallId} {op : Op} (h : Undecided s c op) :
    s.busy c = true := by
  cases h with
  | connecting info p hcall hkeyed hvalid =>
      rw [Sys.busy, hcall]
      rfl
  | queued x timeoutMs k p hheld hout => exact hheld.waits.busy

/-- A call that has returned has returned its result. -/
theorem Decided.resultOf {s : Sys} {c : CallId} {rc rc' : Int} (h : Decided s c rc)
    (hres : s.resultOf c = some rc') : rc = rc' := by
  cases h with
  | returned hres' => exact Option.some.inj (hres'.symm.trans hres)
  | releasing peerId old hcall hrc =>
      have hbusy : s.busy c = true := by
        rw [Sys.busy, hcall]
        rfl
      cases (resultOf_busy hbusy).symm.trans hres
  | executed x ts hcall hout =>
      have hwaits : s.Waits c := ⟨x, ts, hcall⟩
      cases (resultOf_busy hwaits.busy).symm.trans hres

/-- The call that the control thread is in is the only one. -/
theorem Coherent.only (h : Coherent d) {conn : CtrlConn} {hdr : Hdr} {op : Op} {c : CallId}
    {data : List UInt8} (hctrl : d.ctrl = .calling conn hdr op c data) {c' : CallId}
    (hbusy : d.sys.busy c' = true) : c' = c := by
  have hhere : d.ctrl ≠ .exited := by rw [hctrl]; rintro ⟨⟩
  rcases h.calls c' hbusy with hcall | hdestroys
  · rw [hctrl] at hcall
    exact (Option.some.inj hcall).symm
  · cases (h.not_destroys hhere).symm.trans hdestroys

/-- A step of the worker. -/
theorem Refines.worker (h : Refines d S) {a : Action} {sys : Sys} (ha : a.byWorker = true)
    (hstep : Urma.step d.sys a = some sys) : Answered { d with sys := sys } S := by
  cases h.stage with
  | between hcall hnone hanswers hagrees =>
      obtain ⟨hagrees', -⟩ := hagrees.worker h.inv hnone ha hstep
      refine answered_silent h.nbd (.between hcall ?_ hanswers hagrees')
      rintro c ⟨x, ts, hts⟩
      rw [transfer_congr (congrFun (worker_kept hstep ha).calls c)] at hts
      exact hnone c ⟨x, ts, hts⟩
  | undecided conn hdr op c hctrl hu hanswers hagrees =>
      refine answered_call (t := { d with sys := sys }) h.nbd hctrl ?_ hanswers
        (hu.worker h.inv hagrees ha hstep)
      cases hu <;> rfl
  | decided conn hdr op c data rc hctrl hd hanswers hagrees =>
      obtain ⟨hd', hagrees'⟩ := hd.worker h.inv (fun c' => h.coherent.only hctrl) hagrees ha hstep
      exact answered_silent h.nbd (.decided conn hdr op c data rc hctrl hd' hanswers hagrees')

/-- A manager call goes on. -/
theorem Refines.proceed (h : Refines d S) {a : Action} {c : CallId} {sys : Sys}
    (hcall : d.ctrl.inCall = some c) (ha : a.continues = some c)
    (hstep : Urma.step d.sys a = some sys) : Answered { d with sys := sys } S := by
  cases h.stage with
  | between hcall' hnone hanswers hagrees => cases hcall'.symm.trans hcall
  | undecided conn hdr op c' hctrl hu hanswers hagrees =>
      rw [hctrl] at hcall
      obtain rfl := Option.some.inj hcall
      refine answered_call (t := { d with sys := sys }) h.nbd hctrl ?_ hanswers
        (hu.proceed h.inv.orderly hagrees ha hstep)
      cases hu <;> rfl
  | decided conn hdr op c' data rc hctrl hd hanswers hagrees =>
      rw [hctrl] at hcall
      obtain rfl := Option.some.inj hcall
      obtain ⟨hd', hagrees'⟩ := hd.proceed h.inv.orderly hagrees ha hstep
      exact answered_silent h.nbd (.decided conn hdr op c' data rc hctrl hd' hanswers hagrees')

theorem BackendStep.geometry {b b' : Backend} (h : BackendStep b b') : SameGeometry b b' := by
  cases h with
  | same => rfl
  | write offset data len => exact write_geometry b offset data len
  | zero offset len => exact zero_geometry b offset len

/-- **A pass of the NBD loop** is the service's, whatever call is in progress. -/
theorem Refines.servePass (h : Refines d S) (env : Realloc) : Answered (d.servePass env) S := by
  have hbackend : S.store.disk.backend = d.sys.backend := h.stage.agrees.disk.backend.symm
  have hgeo := (serveOnce_backend env (d.nbd.server d.sys.backend)).geometry
  have hstep : S.step (.nbd env) = some { S with
      store := { S.store with disk := { S.store.disk with
        backend := (serveOnce env (d.nbd.server d.sys.backend)).state.backend } }
      nbd := nbdIo (serveOnce env (d.nbd.server d.sys.backend)).state } := by
    simp only [Service.step, h.nbd, hbackend]
  refine answered_event hstep rfl ?_
  cases h.stage with
  | between hcall hnone hanswers hagrees => exact .between hcall hnone hanswers (hagrees.backend _)
  | undecided conn hdr op c hctrl hu hanswers hagrees =>
      exact .undecided conn hdr op c hctrl (hu.backend hgeo) hanswers (hagrees.backend _)
  | decided conn hdr op c data rc hctrl hd hanswers hagrees =>
      exact .decided conn hdr op c data rc hctrl (hd.backend _) hanswers (hagrees.backend _)

/-- The shutdown changes nothing that the service has. -/
theorem Refines.cleanup (h : Refines d S) (hstep : d.cleanupStep = some t) : Answered t S := by
  unfold Process.cleanupStep at hstep
  split at hstep
  · cases hstep
  · split_ifs at hstep <;> cases hstep <;> exact answered_silent h.nbd (h.stage.congr rfl rfl rfl)
  · cases hstep
    exact answered_silent h.nbd (h.stage.congr rfl rfl rfl)
  · split at hstep <;> cases hstep
    exact answered_silent h.nbd (h.stage.congr rfl rfl rfl)
  next hmain =>
    obtain ⟨sys, hdestroy, rfl⟩ := Option.map_eq_some_iff.mp hstep
    have hctrl : d.ctrl = .exited := h.coherent.ctrlGone (by rw [hmain]; rfl)
    have hcall : d.ctrl.inCall = none := by
      rw [hctrl]
      rfl
    obtain ⟨hanswers, hnone⟩ := h.stage.outside hcall
    have hagrees := h.stage.agrees
    obtain rfl : sys = d.sys.destroying := by
      unfold Urma.step at hdestroy
      split at hdestroy <;> cases hdestroy
      rfl
    refine answered_silent h.nbd (.between hcall ?_ hanswers (hagrees.other rfl hdestroy
      ⟨hagrees.disk.enabled, hagrees.disk.backend, hagrees.disk.slots⟩))
    -- the new call is no transfer
    have htransfer : d.sys.destroying.transfer = update d.sys.transfer d.sys.nextCall none :=
      transfer_update (k := ⟨.mgrDestroy, .joining⟩) rfl
    rintro c ⟨x, ts, hts⟩
    rw [htransfer] at hts
    by_cases e : c = d.sys.nextCall
    · rw [e, update_self] at hts
      cases hts
    · rw [update_of_ne e] at hts
      exact hnone c ⟨x, ts, hts⟩
  · split at hstep <;> cases hstep
    exact answered_silent h.nbd (h.stage.congr rfl rfl rfl)
  · cases hstep
    exact answered_silent h.nbd (h.stage.congr rfl rfl rfl)
  · cases hstep

/-- **Every step of a thread** is answered by the service. -/
theorem Refines.step (h : Refines d S) (hstep : d.step l = some t) : Answered t S := by
  cases process_cases hstep with
  | moves pc hmove ht =>
      subst ht
      obtain ⟨hcall, -⟩ := hmove.outside
      obtain ⟨hanswers, hnone⟩ := h.stage.outside hcall
      refine answered_silent h.nbd (.between ?_ hnone hanswers h.stage.agrees)
      cases hmove with
      | tests hctrl =>
          show CtrlPc.inCall (if _ then _ else _) = none
          split_ifs <;> rfl
      | _ => rfl
  | refuses junk env conn₀ conn hdr hctrl ht =>
      subst ht
      obtain ⟨hanswers, hnone⟩ := h.stage.outside (by rw [hctrl]; rfl)
      have hstep : S.step (.refused hdr) = some (S.answer ⟨hdr, none, refusal hdr, []⟩) := rfl
      refine answered_event hstep h.nbd (stage_respond hnone ?_ h.stage.agrees)
      exact congrArg (· ++ _) hanswers
  | starts junk env conn₀ conn hdr op sys hctrl hcall ht =>
      subst ht
      have houtside : d.ctrl.inCall = none := by
        rw [hctrl]
        rfl
      have hhere : d.ctrl ≠ .exited := by
        rw [hctrl]
        rintro ⟨⟩
      have hidle := h.coherent.idle houtside (h.coherent.not_destroys hhere)
      obtain ⟨hanswers, -⟩ := h.stage.outside houtside
      have hagrees := h.stage.agrees
      exact answered_call (t := { d with sys := sys, ctrl := _ }) h.nbd rfl
        (hagrees.report h.inv.orderly hidle op) hanswers
        (start_stage h.inv hidle hagrees env hcall)
  | proceeds a c sys hcall ha hgo ht =>
      subst ht
      exact h.proceed hcall ha hgo
  | replies conn hdr op c data rc hctrl hrc ht =>
      subst ht
      have hnone : ∀ c', ¬ d.sys.Waits c' := by
        intro c' hwaits
        obtain rfl := h.coherent.only hctrl hwaits.busy
        cases (resultOf_busy hwaits.busy).symm.trans hrc
      cases h.stage with
      | between hcall' hnone' hanswers hagrees =>
          rw [hctrl] at hcall'
          cases hcall'
      | undecided conn' hdr' op' c' hctrl' hu hanswers hagrees =>
          cases hctrl.symm.trans hctrl'
          cases (resultOf_busy hu.busy).symm.trans hrc
      | decided conn' hdr' op' c' data' rc' hctrl' hd hanswers hagrees =>
          cases hctrl.symm.trans hctrl'
          obtain rfl := hd.resultOf hrc
          exact answered_silent h.nbd (stage_respond hnone hanswers hagrees)
  | works a sys ha hwork ht =>
      subst ht
      exact h.worker ha hwork
  | serves env hmain ht =>
      subst ht
      exact h.servePass env
  | interrupted hmain ht =>
      subst ht
      exact answered_silent h.nbd (h.stage.congr rfl rfl rfl)
  | cleans hc => exact h.cleanup hc

/-! ### Whole runs -/

/-- The service at the start of the daemon. -/
def serviceOf (d : Process) : Service where
  store := ⟨d.sys.mgr.useMock, d.sys.mgr.queueDepth, .start d.sys, 0, 0⟩
  nbd := d.nbd
  answers := []

theorem refines_initial (hinit : Initial d) : Refines d (serviceOf d) := by
  refine ⟨managerInv_initial hinit.sys, .initial hinit, rfl, ?_⟩
  have hcall : d.ctrl.inCall = none := by
    rcases hinit.ctrl with ⟨-, hctrl⟩ | ⟨-, hctrl⟩ <;> rw [hctrl] <;> rfl
  have hrep := represents_initial hinit.sys
  obtain ⟨b, m, config, queueOk, mutexRc, provider, threadRc, -, hok, hsys⟩ := hinit.sys
  have hm := (mgrInit_ok hok).2
  refine .between hcall ?_ hinit.answers.symm ⟨rfl, rfl, hrep, ?_, ?_⟩
  · rw [hsys]
    rintro c ⟨x, ts, ⟨⟩⟩
  · rw [hsys, Sys.start, hm]
    rfl
  · rw [hsys, Sys.start, hm]
    rfl

theorem Refines.next (h : Refines d S) (hstep : d.step l = some t) :
    ∃ es T, run Service.step S es = some T ∧ Refines t T := by
  obtain ⟨es, T, -, hes, hnbd, hstage⟩ := h.step hstep
  obtain ⟨as, has, hok⟩ := step_orderly h.coherent h.inv.orderly hstep
  refine ⟨es, T, hes, ?_, h.coherent.step h.inv.orderly hstep, hnbd, hstage⟩
  exact run_invariant h.inv (fun _ _ _ hs hok hstep => hs.step hok hstep) hok has

/-- What the clients of the daemon can see of the service.  A manager has the mock
provider when the programs that embed it ask for it; no command line of the daemon
does (`start_useMock`).  A transfer of the service copies to the start of
the peer's segment, or from there, as the worker does, whatever remote address the
client has asked for. -/
structure Shows (d : Process) (S : Service) : Prop where
  /-- Every answer of the daemon is the service's, in its order. -/
  answers : d.answers <+: S.answers
  /-- The service is ahead by the call in progress at most. -/
  settled : d.ctrl.inCall = none → S.answers = d.answers
  ahead : S.answers.length ≤ d.answers.length + 1
  enabled : d.sys.mgr.enabled = S.store.disk.enabled
  /-- The slots hold the entries of the map. -/
  peers : Slots d.sys.slots S.store.disk.peers.entries
  /-- With the mock provider the NBD loop has read and sent the same bytes, and the
  ramdisk has the same content. -/
  nbd : d.sys.mgr.useMock = true → d.nbd = S.nbd ∧ d.sys.backend = S.store.disk.backend

theorem Refines.shows (h : Refines d S) : Shows d S := by
  have hdisk := h.stage.agrees.disk
  have hanswers : S.answers = d.answers ∨ ∃ a, S.answers = d.answers ++ [a] := by
    cases h.stage with
    | between hcall hnone hanswers hagrees => exact .inl hanswers
    | undecided conn hdr op c hctrl hu hanswers hagrees => exact .inl hanswers
    | decided conn hdr op c data rc hctrl hd hanswers hagrees => exact .inr ⟨_, hanswers⟩
  refine ⟨?_, fun hcall => (h.stage.outside hcall).1, ?_, hdisk.enabled, hdisk.slots,
    fun _ => ⟨h.nbd.symm, hdisk.backend⟩⟩
  · rcases hanswers with heq | ⟨a, heq⟩
    · rw [heq]
    · rw [heq]
      exact List.prefix_append _ _
  · rcases hanswers with heq | ⟨a, heq⟩
    · rw [heq]
      exact Nat.le_succ _
    · rw [heq, List.length_append]
      exact Nat.le_refl _

/-- **The daemon refines the atomic service**: for every run of its threads there is one
sequence of events such that at each point of the run the clients see what the
service shows after an initial part of the events. -/
theorem daemon_refines (hinit : Initial d₀) (hrun : run Process.step d₀ ls = some d) :
    ∃ es, ∀ pre u, pre <+: ls → run Process.step d₀ pre = some u →
      ∃ pre' S, pre' <+: es ∧ run Service.step (serviceOf d₀) pre' = some S ∧ Shows u S := by
  obtain ⟨es, hall⟩ := run_simulation_throughout (R := Refines)
    (fun _ _ _ _ h hstep => h.next hstep) (refines_initial hinit) hrun
  refine ⟨es, ?_⟩
  intro pre u hpre hu
  obtain ⟨pre', S, hpre', hS, hrefines⟩ := hall pre u hpre hu
  exact ⟨pre', S, hpre', hS, hrefines.shows⟩

namespace Small

/-- A client that connects a peer, copies a block to it and asks for the status. -/
def copyClient : CtrlConn :=
  ⟨⟨copyRequests ++ requestBytes Ctrl.queryStatus [], []⟩, ⟨[], []⟩⟩

/-- The client is served.  Its transfer is executed after the signal has come. -/
def session : List Label :=
  [.test, .accept (some copyClient), .request ByteMem.zero env, .proceed (.peerConnectLocked 0),
    .reply, .request ByteMem.zero env, .worker (.workerDequeue .fault), .interrupted, .cleanup,
    .worker (.workerExecute true), .worker .workerComplete,
    .proceed (.timedwait 1 0 Urma.Small.now), .reply, .request ByteMem.zero env, .reply]

end Small

theorem daemon_refines_small : ∃ d, run Process.step Small.process Small.session = some d ∧
    d.answers.map CtrlAnswer.status = [0, 0, 0] ∧
    ∃ es S, run Service.step (serviceOf Small.process) es = some S ∧ S.answers = d.answers := by
  obtain ⟨d, hrun, hd⟩ := exists_of_run_any (δ := Process.step) Small.process Small.session
    (fun d => d.answers.map CtrlAnswer.status == [0, 0, 0] && d.ctrl.inCall.isNone)
    (by decide +kernel)
  simp only [Bool.and_eq_true, beq_iff_eq, Option.isNone_iff_eq_none] at hd
  obtain ⟨es, hall⟩ := daemon_refines Small.process_initial hrun
  obtain ⟨pre', S, -, hS, hshows⟩ := hall _ d (List.prefix_refl _) hrun
  exact ⟨d, hrun, hd.1, pre', S, hS, hshows.settled hd.2⟩

/-- **The status records that clients get**: nothing is ever pending or in flight in
them, and `completed` is the number of transfers answered with 0 before. -/
theorem answers_truthful (hinit : Initial d₀) (hrun : run Process.step d₀ ls = some d) :
    Truthful d.answers := by
  obtain ⟨es, hall⟩ := run_simulation_throughout (R := Refines)
    (fun _ _ _ _ h hstep => h.next hstep) (refines_initial hinit) hrun
  obtain ⟨pre', S, -, hS, hrefines⟩ := hall ls d (List.prefix_refl ls) hrun
  exact (Service.truthful_run rfl rfl hS).shorter hrefines.shows.answers

/-- In the small session the record says one completed transfer. -/
theorem answers_truthful_small : ∃ d, run Process.step Small.process Small.session = some d ∧
    (d.answers.map fun a => (loadStatus a.data).completed) = [0, 0, 1] ∧ Truthful d.answers := by
  obtain ⟨d, hrun, hd⟩ := exists_of_run_any (δ := Process.step) Small.process Small.session
    (fun d => (d.answers.map fun a => (loadStatus a.data).completed) == [0, 0, 1])
    (by decide +kernel)
  exact ⟨d, hrun, by simpa using hd, answers_truthful Small.process_initial hrun⟩

end Daemon

end DirectStorage
