/-
DirectStorage/DaemonSafe.lean

The daemon's threads use the manager in order, from its first call to its end.

`Process.step` lets every thread take its next step at any time.  That the calls of
the manager still come one after the other, and that the manager is destroyed when
no call is in progress, is a matter of which thread is where (`Coherent`): a call in
progress is the control thread's, or the destroy; the control thread has left its
loop when the main thread goes on behind the join; and the worker has left its loop
when the manager is released.

So every run of the daemon is, for the manager, an orderly one
(`step_orderly`), and what holds of orderly runs holds of the daemon, with any
number of clients on the control socket, whatever they send, and through the
shutdown.

Main results: `daemon_safe`, and `accepted_after_stop`: once
`ramdisk_ctrl_server_stop` has cleared `running`, at most one more connection is
served.
-/
import DirectStorage.CtrlClient
import DirectStorage.DaemonThreads
import DirectStorage.UrmaShutdown

namespace DirectStorage

namespace Daemon

open Ctrl Urma

variable {d t d₀ : Process} {l : Label} {ls : List Label}

/-! ### Inversion of a step -/

/-- The manager call the control thread is in. -/
def CtrlPc.inCall : CtrlPc → Option CallId
  | .calling _ _ _ c _ => some c
  | _ => none

/-- The control thread goes on to `pc`, without an answer and without a manager call. -/
inductive CtrlMove (d : Process) : Label → CtrlPc → Prop
  | tests (hctrl : d.ctrl = .loop) : CtrlMove d .test (if d.running then .accepting else .exited)
  | fails (hctrl : d.ctrl = .accepting) : CtrlMove d (.accept none) .loop
  | connects (conn : CtrlConn) (hctrl : d.ctrl = .accepting) (hlistening : d.listening = true) :
      CtrlMove d (.accept (some conn)) (.reading conn)
  | closes (junk : ByteMem) (env : CallEnv) (conn : CtrlConn) (hctrl : d.ctrl = .reading conn) :
      CtrlMove d (.request junk env) .loop

/-- It was in its loop, and in no call. -/
theorem CtrlMove.outside {pc : CtrlPc} (h : CtrlMove d l pc) :
    d.ctrl.inCall = none ∧ d.ctrl ≠ .exited := by
  cases h with
  | tests hctrl =>
      rw [hctrl]
      exact ⟨rfl, by rintro ⟨⟩⟩
  | fails hctrl =>
      rw [hctrl]
      exact ⟨rfl, by rintro ⟨⟩⟩
  | connects conn hctrl hlistening =>
      rw [hctrl]
      exact ⟨rfl, by rintro ⟨⟩⟩
  | closes junk env conn hctrl =>
      rw [hctrl]
      exact ⟨rfl, by rintro ⟨⟩⟩

/-- Who took the step, and what it did. -/
inductive ProcessStep (d t : Process) : Label → Prop
  | moves {l : Label} (pc : CtrlPc) (hmove : CtrlMove d l pc) (ht : t = { d with ctrl := pc }) :
      ProcessStep d t l
  | refuses (junk : ByteMem) (env : CallEnv) (conn₀ conn : CtrlConn) (hdr : Hdr)
      (hctrl : d.ctrl = .reading conn₀) (ht : t = d.respond conn ⟨hdr, none, refusal hdr, []⟩) :
      ProcessStep d t (.request junk env)
  | starts (junk : ByteMem) (env : CallEnv) (conn₀ conn : CtrlConn) (hdr : Hdr) (op : Op)
      (sys : Sys) (hctrl : d.ctrl = .reading conn₀)
      (hstep : Urma.step d.sys (startOf env op) = some sys)
      (ht : t = { d with
        sys := sys, ctrl := .calling conn hdr op d.sys.nextCall (report d.sys op) }) :
      ProcessStep d t (.request junk env)
  | proceeds (a : Action) (c : CallId) (sys : Sys) (hcall : d.ctrl.inCall = some c)
      (ha : a.continues = some c) (hstep : Urma.step d.sys a = some sys)
      (ht : t = { d with sys := sys }) : ProcessStep d t (.proceed a)
  | replies (conn : CtrlConn) (hdr : Hdr) (op : Op) (c : CallId) (data : List UInt8) (rc : Int)
      (hctrl : d.ctrl = .calling conn hdr op c data) (hrc : d.sys.resultOf c = some rc)
      (ht : t = d.respond conn ⟨hdr, some op, rc, data⟩) : ProcessStep d t .reply
  | works (a : Action) (sys : Sys) (ha : a.byWorker = true)
      (hstep : Urma.step d.sys a = some sys) (ht : t = { d with sys := sys }) :
      ProcessStep d t (.worker a)
  | serves (env : Realloc) (hmain : d.main = .serving) (ht : t = d.servePass env) :
      ProcessStep d t (.nbd env)
  | interrupted (hmain : d.main = .serving) (ht : t = { d with main := .cleanup }) :
      ProcessStep d t .interrupted
  | cleans (h : d.cleanupStep = some t) : ProcessStep d t .cleanup

theorem serveRequest_cases {conn₀ : CtrlConn} {junk : ByteMem} {env : CallEnv}
    (hctrl : d.ctrl = .reading conn₀) (h : d.serveRequest conn₀ junk env = some t) :
    ProcessStep d t (.request junk env) := by
  unfold Process.serveRequest at h
  split at h
  next conn hread =>
    exact .moves .loop (.closes junk env conn₀ hctrl) (Option.some.inj h).symm
  next hdr payload conn hread =>
    split at h
    next => exact .refuses junk env conn₀ conn hdr hctrl (Option.some.inj h).symm
    next op hop =>
      obtain ⟨sys, hstep, rfl⟩ := Option.map_eq_some_iff.mp h
      exact .starts junk env conn₀ conn hdr op sys hctrl hstep rfl

/-- **Inversion of the step function.** -/
theorem process_cases (h : d.step l = some t) : ProcessStep d t l := by
  unfold Process.step at h
  cases l with
  | test =>
      dsimp only at h
      split at h
      next hctrl => exact .moves _ (.tests hctrl) (Option.some.inj h).symm
      next => cases h
  | accept conn =>
      cases conn with
      | none =>
          dsimp only at h
          split at h
          next hctrl => exact .moves _ (.fails hctrl) (Option.some.inj h).symm
          next => cases h
      | some conn =>
          dsimp only at h
          split at h
          next hctrl =>
            split_ifs at h with hlistening
            exact .moves _ (.connects conn hctrl hlistening) (Option.some.inj h).symm
          next => cases h
  | request junk env =>
      dsimp only at h
      split at h
      next conn hctrl => exact serveRequest_cases hctrl h
      next => cases h
  | proceed a =>
      dsimp only at h
      split at h
      next conn hdr op c data hctrl =>
        split_ifs at h with ha
        obtain ⟨sys, hstep, rfl⟩ := Option.map_eq_some_iff.mp h
        exact .proceeds a c sys (by rw [hctrl]; rfl) ha hstep rfl
      next => cases h
  | reply =>
      dsimp only at h
      split at h
      next conn hdr op c data hctrl =>
        obtain ⟨rc, hrc, rfl⟩ := Option.map_eq_some_iff.mp h
        exact .replies conn hdr op c data rc hctrl hrc rfl
      next => cases h
  | worker a =>
      dsimp only at h
      split_ifs at h with ha
      obtain ⟨sys, hstep, rfl⟩ := Option.map_eq_some_iff.mp h
      exact .works a sys ha hstep rfl
  | nbd env =>
      dsimp only at h
      split at h
      next hmain => exact .serves env hmain (Option.some.inj h).symm
      next => cases h
  | interrupted =>
      dsimp only at h
      split at h
      next hmain => exact .interrupted hmain (Option.some.inj h).symm
      next => cases h
  | cleanup => exact .cleans h

/-! ### Who is where -/

/-- Whose the calls of the manager are, and what is gone when. -/
structure Coherent (d : Process) : Prop where
  calls : ∀ c, d.sys.busy c = true → d.ctrl.inCall = some c ∨ d.main.destroys = true
  absent : d.ctrlInit = false → d.ctrl = .exited
  ctrlGone : d.main.ctrlGone = true → d.ctrl = .exited
  workerGone : d.main.mgrGone = true → d.sys.worker = .stopped
  mgrFreed : d.mgrFreed = true → d.main.mgrGone = true
  backendFreed : d.backendFreed = true → d.main = .exited

theorem ctrlGone_of_destroys {pc : MainPc} (h : pc.destroys = true) : pc.ctrlGone = true := by
  cases pc <;> first | rfl | cases h

theorem destroys_of_mgrGone {pc : MainPc} (h : pc.mgrGone = true) : pc.destroys = true := by
  cases pc <;> first | rfl | cases h

theorem Coherent.initial (hinit : Initial d) : Coherent d := by
  have hbusy : ∀ c, d.sys.busy c = false := by
    obtain ⟨b, m, config, queueOk, mutexRc, provider, threadRc, -, -, hsys⟩ := hinit.sys
    intro c
    rw [hsys]
    rfl
  refine ⟨?_, ?_, ?_, ?_, ?_, ?_⟩
  · intro c hc
    cases (hbusy c).symm.trans hc
  · intro habsent
    rcases hinit.ctrl with ⟨hinit', -⟩ | ⟨-, hctrl⟩
    · cases habsent.symm.trans hinit'
    · exact hctrl
  · intro hgone
    rcases hinit.main with hmain | hmain <;> rw [hmain] at hgone <;> cases hgone
  · intro hgone
    rcases hinit.main with hmain | hmain <;> rw [hmain] at hgone <;> cases hgone
  · intro hfreed
    cases hinit.mgrFreed.symm.trans hfreed
  · intro hfreed
    cases hinit.backendFreed.symm.trans hfreed

/-- While the control thread is in no call and the manager is not being destroyed, no
call is in progress. -/
theorem Coherent.idle (h : Coherent d) (hcall : d.ctrl.inCall = none)
    (hmain : d.main.destroys = false) : d.sys.Idle := by
  intro c _
  by_contra hbusy
  rw [Bool.not_eq_false] at hbusy
  rcases h.calls c hbusy with hc | hd
  · cases hcall.symm.trans hc
  · cases hmain.symm.trans hd

/-- While the control thread has not left its loop, the manager is not being
destroyed. -/
theorem Coherent.not_destroys (h : Coherent d) (hhere : d.ctrl ≠ .exited) :
    d.main.destroys = false := by
  by_contra hd
  rw [Bool.not_eq_false] at hd
  exact hhere (h.ctrlGone (ctrlGone_of_destroys hd))

/-- A step of the control thread, seen from the others. -/
theorem Coherent.of_ctrl (h : Coherent d) (hhere : d.ctrl ≠ .exited) {pc : CtrlPc}
    {answers : List CtrlAnswer} (hidle : ∀ c, d.sys.busy c = false) :
    Coherent { d with ctrl := pc, answers := answers } where
  calls := fun c hc => by cases (hidle c).symm.trans hc
  absent := fun habsent => absurd (h.absent habsent) hhere
  ctrlGone := fun hgone => absurd (h.ctrlGone hgone) hhere
  workerGone := h.workerGone
  mgrFreed := h.mgrFreed
  backendFreed := h.backendFreed

/-- A step of the manager in which no call starts. -/
theorem Coherent.of_sys (h : Coherent d) {a : Action} {sys : Sys} (hcall : a.call = none)
    (hw : d.sys.worker = .stopped → sys.worker = .stopped)
    (hstep : Urma.step d.sys a = some sys) : Coherent { d with sys := sys } where
  calls := by
    intro c hc
    rcases (step_callStep hstep).busy_before hc with hold | ⟨hstart, -⟩
    · exact h.calls c hold
    · rw [hcall] at hstart
      cases hstart
  absent := h.absent
  ctrlGone := h.ctrlGone
  workerGone := fun hgone => hw (h.workerGone hgone)
  mgrFreed := h.mgrFreed
  backendFreed := h.backendFreed

theorem startOf_orderly (env : CallEnv) (op : Op) :
    ∃ kind, (startOf env op).call = some kind ∧ kind.orderly = true := by
  cases op <;> exact ⟨_, rfl, rfl⟩

/-! ### One step -/

/-- The worker that has stopped stays stopped. -/
theorem stopped_step (hinv : OrderlyInv d.sys) {a : Action} {sys : Sys}
    (hstep : Urma.step d.sys a = some sys) (hw : d.sys.worker = .stopped) :
    sys.worker = .stopped :=
  (step_stopped hinv.race.queue hw hstep).1

/-- The main thread goes on. -/
theorem Coherent.of_main (h : Coherent d) {pc : MainPc} {ctrlInit running listening : Bool}
    {mgrFreed backendFreed : Bool} (hdestroys : d.main.destroys = true → pc.destroys = true)
    (habsent : ctrlInit = false → d.ctrl = .exited) (hgone : pc.ctrlGone = true → d.ctrl = .exited)
    (hworker : pc.mgrGone = true → d.sys.worker = .stopped)
    (hmgr : mgrFreed = true → pc.mgrGone = true) (hbackend : backendFreed = true → pc = .exited) :
    Coherent { d with
      main := pc, ctrlInit := ctrlInit, running := running, listening := listening,
      mgrFreed := mgrFreed, backendFreed := backendFreed } where
  calls := fun c hc => (h.calls c hc).imp_right hdestroys
  absent := habsent
  ctrlGone := hgone
  workerGone := hworker
  mgrFreed := hmgr
  backendFreed := hbackend

/-- Nothing is released while the main thread has not joined the worker. -/
theorem Coherent.unfreed (h : Coherent d) (hmain : d.main.mgrGone = false) :
    d.mgrFreed = false ∧ d.backendFreed = false := by
  constructor
  · by_contra hf
    rw [Bool.not_eq_false] at hf
    cases hmain.symm.trans (h.mgrFreed hf)
  · by_contra hf
    rw [Bool.not_eq_false] at hf
    rw [h.backendFreed hf] at hmain
    cases hmain

theorem Coherent.cleanup_step (h : Coherent d) (hstep : d.cleanupStep = some t) : Coherent t := by
  -- before the worker is joined nothing is released
  have hearly : d.main.mgrGone = false →
      (∀ pc : MainPc, d.mgrFreed = true → pc.mgrGone = true) ∧
      ∀ pc : MainPc, d.backendFreed = true → pc = .exited := by
    intro hmain
    obtain ⟨hm, hb⟩ := h.unfreed hmain
    rw [hm, hb]
    exact ⟨by rintro pc ⟨⟩, by rintro pc ⟨⟩⟩
  unfold Process.cleanupStep at hstep
  split at hstep
  next => cases hstep
  next hmain =>
    obtain ⟨hm, hb⟩ := hearly (by rw [hmain]; rfl)
    split_ifs at hstep with hinit
    · obtain rfl := Option.some.inj hstep
      exact h.of_main (by rw [hmain]; rintro ⟨⟩) h.absent (by rintro ⟨⟩) (by rintro ⟨⟩) (hm _)
        (hb _)
    · obtain rfl := Option.some.inj hstep
      rw [Bool.not_eq_true] at hinit
      exact h.of_main (by rw [hmain]; rintro ⟨⟩) h.absent (fun _ => h.absent hinit) (by rintro ⟨⟩)
        (hm _) (hb _)
  next hmain =>
    obtain ⟨hm, hb⟩ := hearly (by rw [hmain]; rfl)
    obtain rfl := Option.some.inj hstep
    exact h.of_main (by rw [hmain]; rintro ⟨⟩) h.absent (by rintro ⟨⟩) (by rintro ⟨⟩) (hm _) (hb _)
  next hmain =>
    obtain ⟨hm, hb⟩ := hearly (by rw [hmain]; rfl)
    split at hstep
    next hctrl =>
      obtain rfl := Option.some.inj hstep
      exact h.of_main (by rw [hmain]; rintro ⟨⟩) (fun _ => hctrl) (fun _ => hctrl) (by rintro ⟨⟩)
        (hm _) (hb _)
    next => cases hstep
  next hmain =>
    obtain ⟨hm, hb⟩ := hearly (by rw [hmain]; rfl)
    obtain ⟨sys, -, rfl⟩ := Option.map_eq_some_iff.mp hstep
    have hctrl := h.ctrlGone (by rw [hmain]; rfl)
    exact ⟨fun _ _ => .inr rfl, h.absent, fun _ => hctrl, by rintro ⟨⟩, hm _, hb _⟩
  next hmain =>
    have hb := (hearly (by rw [hmain]; rfl)).2
    have hctrl := h.ctrlGone (by rw [hmain]; rfl)
    split at hstep
    next hw =>
      obtain rfl := Option.some.inj hstep
      exact h.of_main (fun _ => rfl) h.absent (fun _ => hctrl) (fun _ => hw) (fun _ => rfl) (hb _)
    next => cases hstep
  next hmain =>
    obtain rfl := Option.some.inj hstep
    exact h.of_main (fun _ => rfl) h.absent (fun _ => h.ctrlGone (by rw [hmain]; rfl))
      (fun _ => h.workerGone (by rw [hmain]; rfl)) (fun _ => rfl) (fun _ => rfl)
  next => cases hstep

theorem Coherent.step (h : Coherent d) (hinv : OrderlyInv d.sys) (hstep : d.step l = some t) :
    Coherent t := by
  -- a control thread outside a call has no call in progress
  have hnone : d.ctrl.inCall = none → d.ctrl ≠ .exited → ∀ c, d.sys.busy c = false :=
    fun hcall hhere => hinv.one.idle (h.idle hcall (h.not_destroys hhere))
  cases process_cases hstep with
  | moves pc hmove ht =>
      subst ht
      obtain ⟨hcall, hhere⟩ := hmove.outside
      exact h.of_ctrl hhere (hnone hcall hhere)
  | refuses junk env conn₀ conn hdr hctrl ht =>
      subst ht
      have hhere : d.ctrl ≠ .exited := by rw [hctrl]; rintro ⟨⟩
      exact h.of_ctrl hhere (hnone (by rw [hctrl]; rfl) hhere)
  | starts junk env conn₀ conn hdr op sys hctrl hcall ht =>
      subst ht
      have hhere : d.ctrl ≠ .exited := by rw [hctrl]; rintro ⟨⟩
      have hidle := hnone (by rw [hctrl]; rfl) hhere
      refine ⟨?_, fun ha => absurd (h.absent ha) hhere, fun hg => absurd (h.ctrlGone hg) hhere,
        fun hg => stopped_step hinv hcall (h.workerGone hg), h.mgrFreed, h.backendFreed⟩
      intro c hc
      rcases (step_callStep hcall).busy_before hc with hold | ⟨-, rfl⟩
      · cases (hidle c).symm.trans hold
      · exact .inl rfl
  | proceeds a c sys hcall ha hgo ht =>
      subst ht
      exact h.of_sys (call_of_continues ha) (stopped_step hinv hgo) hgo
  | replies conn hdr op c data rc hctrl hrc ht =>
      subst ht
      have hhere : d.ctrl ≠ .exited := by rw [hctrl]; rintro ⟨⟩
      refine h.of_ctrl hhere ?_
      -- the only call there was has returned
      intro c'
      by_contra hbusy
      rw [Bool.not_eq_false] at hbusy
      rcases h.calls c' hbusy with hc | hd
      · rw [hctrl] at hc
        obtain rfl := Option.some.inj hc
        cases (resultOf_busy hbusy).symm.trans hrc
      · cases (h.not_destroys hhere).symm.trans hd
  | works a sys ha hwork ht =>
      subst ht
      exact h.of_sys (call_of_byWorker ha) (stopped_step hinv hwork) hwork
  | serves env hmain ht =>
      subst ht
      obtain ⟨hm, hb⟩ := h.unfreed (by rw [hmain]; rfl)
      refine ⟨?_, h.absent, ?_, ?_, ?_, ?_⟩
      · intro c hc
        refine (h.calls c hc).imp_right ?_
        rw [hmain]
        rintro ⟨⟩
      · intro hgone
        revert hgone
        unfold Process.servePass
        dsimp only
        split <;> rintro ⟨⟩
      · intro hgone
        revert hgone
        unfold Process.servePass
        dsimp only
        split <;> rintro ⟨⟩
      · intro hf
        cases hm.symm.trans hf
      · intro hf
        cases hb.symm.trans hf
  | interrupted hmain ht =>
      subst ht
      obtain ⟨hm, hb⟩ := h.unfreed (by rw [hmain]; rfl)
      refine h.of_main (by rw [hmain]; rintro ⟨⟩) h.absent (by rintro ⟨⟩) (by rintro ⟨⟩) ?_ ?_
      · rw [hm]
        rintro ⟨⟩
      · rw [hb]
        rintro ⟨⟩
  | cleans hc => exact h.cleanup_step hc

/-- A step of the manager alone is a run of it. -/
theorem run_one {s u : Sys} {a : Action} (h : Urma.step s a = some u) :
    run Urma.step s [a] = some u := by
  simp [run, h]

/-- One write or trim is a step of the NBD thread. -/
theorem run_backendStep {s : Sys} {b : Backend} (hw : ∀ c, s.worker ≠ .faulted c)
    (h : BackendStep s.backend b) : ∃ as, run Urma.step s as = some { s with backend := b } ∧
      RunOk Urma.step Orderly s as := by
  have hstep : ∀ a, a.call = none → Urma.step s a = some { s with backend := b } →
      ∃ as, run Urma.step s as = some { s with backend := b } ∧ RunOk Urma.step Orderly s as :=
    fun a ha hs => ⟨[a], run_one hs, orderly_of_no_call ha, fun _ _ => trivial⟩
  cases h with
  | same => exact ⟨[], rfl, trivial⟩
  | write offset data len =>
      refine hstep (.backendWrite offset data len) rfl ?_
      unfold Urma.step
      split
      next c hc => exact absurd hc (hw c)
      next => rfl
  | zero offset len =>
      refine hstep (.backendZero offset len) rfl ?_
      unfold Urma.step
      split
      next c hc => exact absurd hc (hw c)
      next => rfl

/-- **Every step of the daemon is, for the manager, an orderly one**, or none at all. -/
theorem step_orderly (h : Coherent d) (hinv : OrderlyInv d.sys) (hstep : d.step l = some t) :
    ∃ as, run Urma.step d.sys as = some t.sys ∧ RunOk Urma.step Orderly d.sys as := by
  have hone : ∀ a, Urma.step d.sys a = some t.sys → Orderly d.sys a →
      ∃ as, run Urma.step d.sys as = some t.sys ∧ RunOk Urma.step Orderly d.sys as :=
    fun a hs ha => ⟨[a], run_one hs, ha, fun _ _ => trivial⟩
  have hnone : t.sys = d.sys →
      ∃ as, run Urma.step d.sys as = some t.sys ∧ RunOk Urma.step Orderly d.sys as :=
    fun hs => ⟨[], by rw [hs]; rfl, trivial⟩
  cases process_cases hstep with
  | moves pc hmove ht => exact hnone (by rw [ht])
  | refuses junk env conn₀ conn hdr hctrl ht => exact hnone (by rw [ht]; rfl)
  | starts junk env conn₀ conn hdr op sys hctrl hcall ht =>
      subst ht
      have hhere : d.ctrl ≠ .exited := by rw [hctrl]; rintro ⟨⟩
      refine hone _ hcall ?_
      obtain ⟨kind, hkind, horderly⟩ := startOf_orderly env op
      intro kind' hkind'
      obtain rfl := Option.some.inj (hkind.symm.trans hkind')
      exact ⟨horderly, h.idle (by rw [hctrl]; rfl) (h.not_destroys hhere)⟩
  | proceeds a c sys hcall ha hgo ht =>
      subst ht
      exact hone a hgo (orderly_of_no_call (call_of_continues ha))
  | replies conn hdr op c data rc hctrl hrc ht => exact hnone (by rw [ht]; rfl)
  | works a sys ha hwork ht =>
      subst ht
      exact hone a hwork (orderly_of_no_call (call_of_byWorker ha))
  | serves env hmain ht =>
      subst ht
      exact run_backendStep hinv.unfaulted (serveOnce_backend env (d.nbd.server d.sys.backend))
  | interrupted hmain ht => exact hnone (by rw [ht])
  | cleans hc =>
      unfold Process.cleanupStep at hc
      split at hc
      next => cases hc
      next => split_ifs at hc <;> exact hnone (by rw [← Option.some.inj hc])
      next => exact hnone (by rw [← Option.some.inj hc])
      next =>
        split at hc
        next => exact hnone (by rw [← Option.some.inj hc])
        next => cases hc
      next hmain =>
        obtain ⟨sys, hdestroy, rfl⟩ := Option.map_eq_some_iff.mp hc
        refine hone _ hdestroy ?_
        rintro kind ⟨⟩
        have hctrl := h.ctrlGone (by rw [hmain]; rfl)
        exact ⟨rfl, h.idle (by rw [hctrl]; rfl) (by rw [hmain]; rfl)⟩
      next =>
        split at hc
        next => exact hnone (by rw [← Option.some.inj hc])
        next => cases hc
      next => exact hnone (by rw [← Option.some.inj hc])
      next => cases hc

/-! ### Whole runs -/

/-- The manager's part of a run of the daemon. -/
theorem run_orderly (hinit : Initial d₀) (hrun : run Process.step d₀ ls = some d) :
    (∃ as, run Urma.step d₀.sys as = some d.sys ∧ RunOk Urma.step Orderly d₀.sys as) ∧
      OrderlyInv d.sys ∧ Coherent d := by
  obtain ⟨as, s, has, hok, rfl, hinv, hcoh⟩ := run_simulation (ε := Urma.step) (Q := Orderly)
    (R := fun d s => s = d.sys ∧ OrderlyInv d.sys ∧ Coherent d) (by
      rintro d l t s ⟨rfl, hinv, hcoh⟩ hstep
      obtain ⟨as, has, hok⟩ := step_orderly hcoh hinv hstep
      exact ⟨as, t.sys, has, hok, rfl, hinv.of_run hok has, hcoh.step hinv hstep⟩)
    ⟨rfl, orderlyInv_initial hinit.sys, Coherent.initial hinit⟩ hrun
  exact ⟨⟨as, has, hok⟩, hinv, hcoh⟩

/-- How the daemon ends. -/
structure OrderlyStop (d : Process) : Prop where
  /-- The manager is destroyed when no call is in progress and every request is done. -/
  settled : d.main = .ctrlStopped → d.sys.Idle ∧ d.sys.accepted = d.sys.finished
  /-- Once the manager is released, only the main thread goes on. -/
  alone : d.mgrFreed = true → ∀ l t, d.step l = some t → l = .cleanup
  /-- Once the backend is released, nothing does. -/
  ended : d.backendFreed = true → ∀ l, d.step l = none

/-- When the control thread and the worker have left their loops and `serve_nbd` is
over, only `cleanup` goes on. -/
theorem only_cleanup (hctrl : d.ctrl = .exited) (hw : d.sys.worker = .stopped)
    (hmain : d.main ≠ .serving) (hstep : d.step l = some t) : l = .cleanup := by
  cases process_cases hstep with
  | moves pc hmove ht => exact absurd hctrl hmove.outside.2
  | refuses junk env conn₀ conn hdr hctrl' ht => cases hctrl.symm.trans hctrl'
  | starts junk env conn₀ conn hdr op sys hctrl' hcall ht => cases hctrl.symm.trans hctrl'
  | proceeds a c sys hcall ha hgo ht =>
      rw [hctrl] at hcall
      cases hcall
  | replies conn hdr op c data rc hctrl' hrc ht => cases hctrl.symm.trans hctrl'
  | works a sys ha hwork ht => cases ha.symm.trans (step_of_stopped hw hwork).1
  | serves env hmain' ht => exact absurd hmain' hmain
  | interrupted hmain' ht => exact absurd hmain' hmain
  | cleans hc => rfl

theorem Coherent.orderlyStop (h : Coherent d) (hinv : OrderlyInv d.sys) : OrderlyStop d where
  settled := by
    intro hmain
    have hctrl := h.ctrlGone (by rw [hmain]; rfl)
    have hidle := h.idle (by rw [hctrl]; rfl) (by rw [hmain]; rfl)
    exact ⟨hidle, (hinv.one.drained hinv.race.queue hidle).1⟩
  alone := by
    intro hf l t hstep
    have hgone := h.mgrFreed hf
    refine only_cleanup (h.ctrlGone (ctrlGone_of_destroys (destroys_of_mgrGone hgone)))
      (h.workerGone hgone) ?_ hstep
    intro hmain
    rw [hmain] at hgone
    cases hgone
  ended := by
    intro hf l
    have hmain := h.backendFreed hf
    rcases e : d.step l with - | t
    · rfl
    · have hl := only_cleanup (h.ctrlGone (by rw [hmain]; rfl)) (h.workerGone (by rw [hmain]; rfl))
        (by rw [hmain]; rintro ⟨⟩) e
      subst hl
      have hc : d.cleanupStep = some t := e
      rw [Process.cleanupStep, hmain] at hc
      cases hc

/-- **The daemon is safe**: in every interleaving of the control thread with its clients,
the NBD requests, the worker and the shutdown, the calls of the manager come one after
the other, the worker never reads an unset pointer, faults, or touches a range of a peer
that is not its own, every request is done when the worker leaves its loop, and the
manager and the backend are released when no other thread can make a step any more.
Sockets and mock HBM buffers are not part of the last clause: the listening socket is
closed under the control thread, and a disconnect frees its peer's buffer. -/
theorem daemon_safe (hinit : Initial d₀) (hrun : run Process.step d₀ ls = some d) :
    (∃ as, run Urma.step d₀.sys as = some d.sys ∧ RunOk Urma.step Orderly d₀.sys as) ∧
      Sound d.sys ∧ OrderlyStop d := by
  obtain ⟨horderly, hinv, hcoh⟩ := run_orderly hinit hrun
  exact ⟨horderly, hinv.sound, hcoh.orderlyStop hinv⟩

/-! ### A small daemon -/

namespace Small

def io : NbdIo := ⟨⟨[], []⟩, ⟨[], []⟩, [], 0, false⟩

/-- The small manager, with a control server and nothing to serve on NBD. -/
def process : Process :=
  ⟨Urma.Small.start, true, true, true, .loop, .serving, io, false, false, []⟩

theorem process_initial : Initial process :=
  ⟨Urma.Small.start_initial, .inl ⟨rfl, rfl⟩, .inl rfl, rfl, rfl, rfl⟩

/-- The bytes of a request. -/
def requestBytes (opcode : UInt16) (payload : List UInt8) : List UInt8 :=
  Hdr.bytes ⟨ctrlMagic, ctrlVersion, opcode, UInt32.ofNat payload.length, 0, 1⟩ ++ payload

/-- Connect peer 7 and copy a block to it. -/
def copyRequests : List UInt8 :=
  requestBytes Ctrl.peerConnect (storeConnect (Urma.Small.peer 7) 0) ++
    requestBytes Ctrl.urmaTransfer (storeTransfer (Urma.Small.xfer 65536))

/-- A client that connects a peer, asks for a transfer and closes the connection. -/
def client : CtrlConn := ⟨⟨copyRequests, []⟩, ⟨[], []⟩⟩

def env : CallEnv := ⟨⟨true, none, none⟩, Urma.Small.now⟩

/-- The worker takes the transfer, copies it and completes it. -/
def serveTransfer : List Label :=
  [.worker (.workerDequeue .fault), .worker (.workerExecute true), .worker .workerComplete,
    .worker .workerLog]

/-- A signal arrives while the control thread is in `accept`.  A client that had been
waiting is served to the end all the same, its transfer while the main thread is in
`cleanup`, and then the daemon shuts down. -/
def shutdown : List Label :=
  [.test, .interrupted, .cleanup, .accept (some client)] ++
    [.request ByteMem.zero env, .proceed (.peerConnectLocked 0), .reply] ++
    (.request ByteMem.zero env :: .cleanup :: serveTransfer) ++
    [.proceed (.timedwait 1 0 Urma.Small.now), .reply, .request ByteMem.zero env, .test] ++
    [.cleanup, .cleanup, .worker (.workerDequeue .fault), .cleanup, .cleanup]

end Small

theorem daemon_safe_small : ∃ d, run Process.step Small.process Small.shutdown = some d ∧
    (d.backendFreed = true ∧ d.answers.map CtrlAnswer.status = [0, 0] ∧ d.sys.finished = [1]) ∧
    (∃ as, run Urma.step Small.process.sys as = some d.sys ∧
      RunOk Urma.step Orderly Small.process.sys as) ∧ Sound d.sys ∧ OrderlyStop d := by
  obtain ⟨d, hrun, hd⟩ := exists_of_run_any (δ := Process.step) Small.process Small.shutdown
    (fun d => d.backendFreed = true ∧ d.answers.map CtrlAnswer.status = [0, 0] ∧
      d.sys.finished = [1]) (by decide +kernel)
  exact ⟨d, hrun, of_decide_eq_true hd, daemon_safe Small.process_initial hrun⟩

/-! ### After the stop -/

/-- The step gives the control thread a connection. -/
def Label.connects : Label → Bool
  | .accept (some _) => true
  | _ => false

/-- The connections the control thread can still get once `running` is cleared. -/
def CtrlPc.credit : CtrlPc → Nat
  | .accepting => 1
  | _ => 0

theorem respond_credit (d : Process) (conn : CtrlConn) (a : CtrlAnswer) :
    (d.respond conn a).ctrl.credit = 0 := by
  unfold Process.respond
  dsimp only
  split_ifs <;> rfl

theorem cleanup_running (hrunning : d.running = false) (h : d.cleanupStep = some t) :
    t.running = false ∧ t.ctrl = d.ctrl := by
  unfold Process.cleanupStep at h
  repeat' split at h
  all_goals first
    | cases h; exact ⟨rfl, rfl⟩
    | cases h; exact ⟨hrunning, rfl⟩
    | cases h
    | obtain ⟨sys, -, rfl⟩ := Option.map_eq_some_iff.mp h
      exact ⟨hrunning, rfl⟩

/-- `running` stays cleared, and a connection uses up the credit. -/
theorem credit_step (hrunning : d.running = false) (h : d.step l = some t) :
    t.running = false ∧ (if l.connects then 1 else 0) + t.ctrl.credit ≤ d.ctrl.credit := by
  -- a step that is no `accept` and leaves the control thread without credit, or alone
  have hother : l.connects = false → t.running = d.running →
      t.ctrl.credit = 0 ∨ t.ctrl = d.ctrl →
      t.running = false ∧ (if l.connects then 1 else 0) + t.ctrl.credit ≤ d.ctrl.credit := by
    intro hl hr hc
    refine ⟨hr.trans hrunning, ?_⟩
    rw [hl]
    rcases hc with hc | hc
    · rw [hc]
      exact Nat.zero_le _
    · rw [hc]
      exact Nat.le_of_eq (Nat.zero_add _)
  cases process_cases h with
  | moves pc hmove ht =>
      subst ht
      cases hmove with
      | tests hctrl =>
          -- `running` is cleared, so the loop is left
          refine hother rfl rfl (.inl ?_)
          rw [hrunning]
          rfl
      | fails hctrl => exact hother rfl rfl (.inl rfl)
      | connects conn hctrl hlistening =>
          rw [hctrl]
          exact ⟨hrunning, Nat.le_refl 1⟩
      | closes junk env conn hctrl => exact hother rfl rfl (.inl rfl)
  | refuses junk env conn₀ conn hdr hctrl ht =>
      subst ht
      exact hother rfl rfl (.inl (respond_credit _ _ _))
  | starts junk env conn₀ conn hdr op sys hctrl hcall ht =>
      subst ht
      exact hother rfl rfl (.inl rfl)
  | proceeds a c sys hcall ha hgo ht =>
      subst ht
      exact hother rfl rfl (.inr rfl)
  | replies conn hdr op c data rc hctrl hrc ht =>
      subst ht
      exact hother rfl rfl (.inl (respond_credit _ _ _))
  | works a sys ha hwork ht =>
      subst ht
      exact hother rfl rfl (.inr rfl)
  | serves env hmain ht =>
      subst ht
      exact hother rfl rfl (.inr rfl)
  | interrupted hmain ht =>
      subst ht
      exact hother rfl rfl (.inr rfl)
  | cleans hc =>
      obtain ⟨hr, hctrl⟩ := cleanup_running hrunning hc
      exact hother rfl (hr.trans hrunning.symm) (.inr hctrl)

/-- **Once `running` is cleared, at most one more connection is served**: the control
thread may have been about to call `accept`, or in it. -/
theorem accepted_after_stop (hrunning : d.running = false)
    (hrun : run Process.step d ls = some t) : ls.countP Label.connects ≤ 1 := by
  have hcredit : ∀ {d : Process} {ls : List Label}, d.running = false →
      run Process.step d ls = some t → ls.countP Label.connects ≤ d.ctrl.credit := by
    intro d ls hrunning hrun
    induction ls generalizing d with
    | nil => exact Nat.zero_le _
    | cons l ls ih =>
        obtain ⟨u, hu, hrest⟩ := run_cons_iff.mp hrun
        obtain ⟨hrunning', hle⟩ := credit_step hrunning hu
        have hls := ih hrunning' hrest
        rw [List.countP_cons]
        omega
  refine (hcredit hrunning hrun).trans ?_
  unfold CtrlPc.credit
  split
  · exact Nat.le_refl 1
  · exact Nat.zero_le 1

/-- In the small shutdown the client is served after the signal. -/
theorem accepted_after_stop_small : ∃ d t,
    run Process.step Small.process (Small.shutdown.take 3) = some d ∧ d.running = false ∧
    run Process.step d (Small.shutdown.drop 3) = some t ∧
    (Small.shutdown.drop 3).countP Label.connects = 1 ∧
    (Small.shutdown.drop 3).countP Label.connects ≤ 1 := by
  obtain ⟨d, hd, hrunning⟩ := exists_of_run_any (δ := Process.step) Small.process
    (Small.shutdown.take 3) (fun d => !d.running) (by decide +kernel)
  obtain ⟨t, ht, -⟩ := exists_of_run_any (δ := Process.step) Small.process Small.shutdown
    (fun _ => true) (by decide +kernel)
  have hrunning' : d.running = false := by simpa using hrunning
  have hrest : run Process.step d (Small.shutdown.drop 3) = some t := (run_append hd).symm.trans ht
  exact ⟨d, t, hd, hrunning', hrest, by decide, accepted_after_stop hrunning' hrest⟩

end Daemon

end DirectStorage
