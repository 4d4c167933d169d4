import Mathlib.Logic.Function.Basic
import FreeJ.ClosureQueue
import FreeJ.Transition
import FreeJ.ViMo

/-!
# The Wii Controller

`wiimote_ctrl.cpp`. Other threads, those of the device library and the one that opens the
device, queue what they have to tell with `add_job`; `poll` runs the queue in the thread of
the engine. The jobs of the accelerometer and of the connection, which are about floating
point numbers and the device library, report no buttons: they are all `other`.

## Main results

* `Inv`: what holds at every position of all these threads.
* `buttons_reconstruct`: the calls of `button_event`, and those of `button` of the video mouse,
  make up the masks reported.
-/

namespace FreeJ

open Function (update)
open Transition

/-- `WiiController::WiiError` -/
inductive WiiError
  | NONE
  | DISCONNECT
  | COMM
  deriving DecidableEq, Repr

/-- The jobs of `_events_queue`. -/
inductive WiiJob
  | update_btn (buttons : BitVec 16)
  | update_ir (source x y size : BitVec 32)
  | update_err (err : WiiError)
  | error_event (err : WiiError)
  | other
  deriving DecidableEq, Repr

/-- The functions that the jobs call back. -/
inductive WiiEvent
  | button_event (event : ButtonEvent 16)
  | ir_event (source x y size : BitVec 32)
  | disconnect_event
  | error_event (err : WiiError)
  | other
  deriving DecidableEq, Repr

/-- `WiiController`, with the threads that queue jobs, the engine inside `do_jobs`, and the
calls made so far. The engine is the owner `none` of the mutex. -/
structure WiiController (T : Type*) where
  events_queue : ClosureQueue (Option T) WiiJob
  buttons : BitVec 16
  /-- a thread inside `add_job`, with its job -/
  adding : T → Option (WiiJob × AddJob)
  /-- the engine inside `do_jobs` -/
  jobs : Option (DoJobs WiiJob)
  events : List WiiEvent

namespace WiiController

variable {T : Type*}

/-- `WiiController::_cwiid_sync_update_btn` -/
def sync_update_btn (s : WiiController T) (buttons : BitVec 16) : WiiController T :=
  if buttons ^^^ s.buttons ≠ 0 then
    { s with
      events := s.events ++ (buttonEvents buttons s.buttons).map .button_event
      buttons := buttons }
  else s

/-- `WiiController::_cwiid_sync_update_err` -/
def sync_update_err (s : WiiController T) (err : WiiError) : WiiController T :=
  if err = .DISCONNECT then { s with events := s.events ++ [.disconnect_event] }
  else { s with events := s.events ++ [.error_event err] }

/-- `Closure::run`, for each job. -/
def run (s : WiiController T) : WiiJob → WiiController T
  | .update_btn buttons => s.sync_update_btn buttons
  | .update_ir source x y size => { s with events := s.events ++ [.ir_event source x y size] }
  | .update_err err => s.sync_update_err err
  | .error_event err => { s with events := s.events ++ [.error_event err] }
  | .other => { s with events := s.events ++ [.other] }

/-- The engine at a position of `do_jobs`: it runs the job at one of them. -/
def runAt (s : WiiController T) : DoJobs WiiJob → WiiController T
  | .run job => s.run job
  | _ => s

/-- What a thread does next: it calls `add_job` or goes on in it, and the engine calls `poll`
or goes on in `do_jobs`. -/
inductive Act (T : Type*)
  | queue (t : T) (job : WiiJob)
  | add (t : T)
  | poll
  | jobs

section Step

variable [DecidableEq T]

/-- One step of one thread. -/
def step (s : WiiController T) : Act T → Option (WiiController T)
  | .queue t job =>
    if s.adding t = none then some { s with adding := update s.adding t (some (job, .lock)) }
    else none
  | .add t =>
    match s.adding t with
    | none => none
    | some (job, pc) => (s.events_queue.add_job (some t) job pc).map fun (q, pc) =>
        { s with
          events_queue := q
          adding := update s.adding t (pc.map fun pc => (job, pc)) }
  | .poll => if s.jobs = none then some { s with jobs := some .lock } else none
  | .jobs =>
    match s.jobs with
    | none => none
    | some pc => (s.events_queue.do_jobs none pc).map fun (q, pc') =>
        { s.runAt pc with events_queue := q, jobs := pc' }

end Step

/-- `WiiController::WiiController` -/
def constructed : WiiController T where
  events_queue := .empty
  buttons := 0
  adding _ := none
  jobs := none
  events := []

/-- The controller with any number of threads that queue jobs. -/
def system (T : Type*) [DecidableEq T] : System (WiiController T) (Act T) :=
  System.ofFun (· = constructed) step

/-- The calls of `button_event`. -/
def buttonCalls (s : WiiController T) : List (ButtonEvent 16) :=
  s.events.filterMap fun
    | .button_event e => some e
    | _ => none

/-- The masks that the given jobs report. -/
def reports (jobs : List WiiJob) : List (BitVec 16) :=
  jobs.filterMap fun
    | .update_btn buttons => some buttons
    | _ => none

/-- The invariant: the calls so far are those for the reports drained so far, and the jobs are
run in the order in which they were queued. -/
structure Inv (s : WiiController T) : Prop where
  calls : Reconstructs 0 (reports s.events_queue.ran) s.buttonCalls
  buttons : s.buttons = (reports s.events_queue.ran).getLastD 0
  order : s.events_queue.pushed =
    s.events_queue.ran ++ s.jobs.elim [] DoJobs.pending ++ s.events_queue.job_queue_

variable {s t : WiiController T}

/-- Running a job makes the calls for the mask it reports, if it reports one. -/
theorem run_calls (s : WiiController T) (job : WiiJob) :
    (∃ mask, job = .update_btn mask ∧ (s.run job).buttons = mask ∧
        (s.run job).buttonCalls = s.buttonCalls ++ buttonEvents mask s.buttons) ∨
      reports [job] = [] ∧ (s.run job).buttons = s.buttons ∧
        (s.run job).buttonCalls = s.buttonCalls := by
  have hbuttons : ∀ events : List (ButtonEvent 16),
      (events.map WiiEvent.button_event).filterMap (fun
        | .button_event e => some e
        | _ => none) = events := by
    intro events
    rw [List.filterMap_map]
    exact List.filterMap_some
  cases job with
  | update_btn mask =>
      refine Or.inl ⟨mask, rfl, ?_⟩
      simp only [run, sync_update_btn]
      by_cases hdiff : mask ^^^ s.buttons ≠ 0
      · rw [if_pos hdiff]
        exact ⟨rfl, by simp only [buttonCalls, List.filterMap_append, hbuttons]⟩
      · have hsame : mask = s.buttons := BitVec.xor_eq_zero_iff.mp (not_not.mp hdiff)
        rw [if_neg hdiff, buttonEvents, if_neg hdiff, List.append_nil]
        exact ⟨hsame.symm, rfl⟩
  | update_ir => exact Or.inr ⟨rfl, rfl, by simp [run, buttonCalls]⟩
  | update_err err =>
      refine Or.inr ⟨rfl, ?_⟩
      simp only [run, sync_update_err]
      split <;> exact ⟨rfl, by simp [buttonCalls]⟩
  | error_event => exact Or.inr ⟨rfl, rfl, by simp [run, buttonCalls]⟩
  | other => exact Or.inr ⟨rfl, rfl, by simp [run, buttonCalls]⟩

/-- Running a job keeps the account of calls and reports. -/
theorem run_reconstructs {jobs : List WiiJob} (job : WiiJob)
    (hc : Reconstructs 0 (reports jobs) s.buttonCalls)
    (hb : s.buttons = (reports jobs).getLastD 0) :
    Reconstructs 0 (reports (jobs ++ [job])) (s.run job).buttonCalls ∧
      (s.run job).buttons = (reports (jobs ++ [job])).getLastD 0 := by
  have hsplit : reports (jobs ++ [job]) = reports jobs ++ reports [job] :=
    List.filterMap_append
  rw [hsplit]
  rcases run_calls s job with ⟨mask, rfl, hmask, hcalls⟩ | ⟨hnone, hmask, hcalls⟩
  · rw [hmask, hcalls]
    refine ⟨hc.snoc ?_, ?_⟩
    · rw [← hb]
      exact report_buttonEvents _ _
    · simp [reports]
  · rw [hnone, hmask, hcalls, List.append_nil]
    exact ⟨hc, hb⟩

section Step

variable [DecidableEq T] {a : Act T}

/-- **Every step keeps the invariant.** -/
theorem Inv.step (hi : Inv s) (h : s.step a = some t) : Inv t := by
  cases a with
  | queue u job =>
      simp only [WiiController.step] at h
      split at h
      · obtain rfl := Option.some.inj h
        exact ⟨hi.calls, hi.buttons, hi.order⟩
      · simp at h
  | add u =>
      simp only [WiiController.step] at h
      rcases hu : s.adding u with _ | ⟨job, pc⟩
      · simp [hu] at h
      · rw [hu] at h
        obtain ⟨⟨q, pc'⟩, hq, rfl⟩ := Option.map_eq_some_iff.mp h
        obtain ⟨horder, hran, -⟩ := ClosureQueue.add_job_order hq hi.order
        refine ⟨?_, ?_, horder⟩
        · exact hran.symm ▸ hi.calls
        · exact hran.symm ▸ hi.buttons
  | poll =>
      simp only [WiiController.step] at h
      split at h
      · rename_i hidle
        obtain rfl := Option.some.inj h
        have horder := hi.order
        rw [hidle] at horder
        exact ⟨hi.calls, hi.buttons, horder⟩
      · simp at h
  | jobs =>
      simp only [WiiController.step] at h
      rcases hpc : s.jobs with _ | pc
      · simp [hpc] at h
      · rw [hpc] at h
        obtain ⟨⟨q, pc'⟩, hq, rfl⟩ := Option.map_eq_some_iff.mp h
        have horder := hi.order
        rw [hpc] at horder
        have horder' := ClosureQueue.do_jobs_order hq horder
        by_cases hrun : ∃ job, pc = .run job
        · obtain ⟨job, rfl⟩ := hrun
          obtain ⟨rfl, rfl⟩ := Prod.mk.inj (Option.some.inj hq)
          obtain ⟨hc, hb⟩ := run_reconstructs job hi.calls hi.buttons
          exact ⟨hc, hb, horder'⟩
        · have hran := ClosureQueue.do_jobs_ran hq fun job hjob => hrun ⟨job, hjob⟩
          have hsame : s.runAt pc = s := by
            cases pc with
            | run job => exact absurd ⟨job, rfl⟩ hrun
            | _ => rfl
          rw [hsame]
          exact ⟨hran.symm ▸ hi.calls, hran.symm ▸ hi.buttons, horder'⟩

/-- The invariant holds in every reachable state. -/
theorem inv_reachable (hr : Reachable (system T) s) : Inv s := by
  have hinv : Invariant (system T) Inv := by
    constructor
    · rintro s rfl
      exact ⟨rfl, rfl, rfl⟩
    · exact fun s a t hi h => hi.step h
  exact hinv.holds hr

end Step

end WiiController

/-- **Button events reconstruct the mask.** For the Wii controller, whatever the threads that
queue reports and the engine that polls do, and in whatever order: the reports are drained in
the order in which they were queued, each makes the calls that say what changed, and following
all of them leads to the last mask drained. The same for the packets of the video mouse, in
whatever pieces its stream is read. -/
theorem buttons_reconstruct {T : Type*} [DecidableEq T] :
    (∀ s : WiiController T, Reachable (WiiController.system T) s →
      s.events_queue.ran <+: s.events_queue.pushed ∧
        Reconstructs 0 (WiiController.reports s.events_queue.ran) s.buttonCalls ∧
        s.buttonCalls.foldl ButtonEvent.apply 0 =
          (WiiController.reports s.events_queue.ran).getLastD 0) ∧
      ∀ (s t : ViMoController) (chunks : List (List Byte)), s.Opened → s.polls chunks = some t →
        ∃ calls, t.buttonCalls = s.buttonCalls ++ calls ∧
          Reconstructs (s.vmd_old.k.setWidth 8)
            ((frames chunks.flatten).map ViMoController.mask) calls ∧
          calls.foldl ButtonEvent.apply (s.vmd_old.k.setWidth 8) =
            ((frames chunks.flatten).map ViMoController.mask).getLastD
              (s.vmd_old.k.setWidth 8) := by
  constructor
  · intro s hr
    have hi := WiiController.inv_reachable hr
    exact ⟨⟨_, by rw [hi.order, List.append_assoc]⟩, hi.calls, hi.calls.fold⟩
  · intro s t chunks hs h
    obtain ⟨v, p, hall, -, -⟩ := ViMoController.receiveAll_eq hs.read_pos chunks.flatten
    obtain rfl := Option.some.inj
      (((ViMoController.polls_eq hs.initialized hs.fd chunks).trans hall).symm.trans h)
    obtain ⟨calls, hcalls, hrec⟩ := ViMoController.deliver_reconstructs s (frames chunks.flatten)
    exact ⟨calls, hcalls, hrec, hrec.fold⟩

/-- A thread reports two buttons and the engine drains the report. -/
theorem buttons_reconstruct_two :
    ∃ s : WiiController Unit, Reachable (WiiController.system Unit) s ∧
      s.events_queue.ran = [.update_btn 5] ∧ s.buttonCalls.foldl ButtonEvent.apply 0 = 5 := by
  obtain ⟨s, hs, hran⟩ : ∃ s : WiiController Unit,
      exec WiiController.step .constructed [.queue () (.update_btn 5), .add (), .add (), .add (),
        .poll, .jobs, .jobs, .jobs, .jobs] = some s ∧
        s.events_queue.ran = [.update_btn 5] := ⟨_, rfl, rfl⟩
  have hr : Reachable (WiiController.system Unit) s := (Reachable.init rfl).exec hs
  refine ⟨s, hr, hran, ?_⟩
  rw [(buttons_reconstruct.1 s hr).2.2, hran]
  rfl

end FreeJ
