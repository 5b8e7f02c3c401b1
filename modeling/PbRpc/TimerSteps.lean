import PbRpc.TimerArming
import PbRpc.TimerRuns

/-!
# The loop is a thread

The operations of the loop (`Timers`) are single steps, and those of the threads
(`TimerThreads`) are taken apart into frames. Both are read off the same code,
and here they are compared: a step of the loop is a run of its one thread, with
the clock going on where the loop looks at it (`step_leads`), and so is a run of
the loop (`runs_inFrames`). So what is said of the threads is said of this loop,
and what the loop does is something the threads can do.
-/

namespace PbRpc

open Transition

namespace Timers

variable {κ : Type} {timeout_ : ℤ} {t t' : Timers κ} {frames : List (TimerFrame κ)}

/-- The loop's one thread, in some frames. -/
def inFrames (t : Timers κ) (frames : List (TimerFrame κ)) : TimerThreads Unit κ where
  time := t.time
  clock := t.clock.reading
  threads _ := frames

/-- The thread gets from one state to another. -/
def Leads (timeout_ : ℤ) (s s' : TimerThreads Unit κ) : Prop :=
  Runs (TimerThreads.step timeout_) anyStep s s'

theorem update_unit {α : Type} (f : Unit → α) (a : α) : Function.update f () a = fun _ => a := by
  funext i
  exact Function.update_self () a f

/-! ## Single steps -/

/-- The clock goes on. -/
theorem leads_advance (timeout_ : ℤ) (t : Timers κ) (frames : List (TimerFrame κ)) :
    Leads timeout_ (t.inFrames frames) (t.advance.inFrames frames) :=
  (Runs.refl _).tail (l := .elapse (t.clock.elapse 0)) trivial rfl

/-- A frame does what it does. -/
theorem leads_run (t : Timers κ) (frame : TimerFrame κ) (frames next : List (TimerFrame κ))
    {time : Time κ} (h : frame.run timeout_ t.time t.clock.reading = (time, next)) :
    Leads timeout_ (t.inFrames (frame :: frames))
      (inFrames { t with time := time } (next ++ frames)) := by
  refine (Runs.refl _).tail (l := .run ()) trivial ?_
  show some { t.inFrames (frame :: frames) with
      time := (frame.run timeout_ t.time t.clock.reading).1
      threads := Function.update (fun _ => frame :: frames) ()
        ((frame.run timeout_ t.time t.clock.reading).2 ++ frames) } = _
  rw [h, update_unit]
  rfl

/-- A call. -/
theorem leads_call {l : TimerThreadsStep Unit κ} {frame : TimerFrame κ}
    (h : TimerThreads.step timeout_ (t.inFrames frames) l
      = some ((t.inFrames frames).call () frame)) :
    Leads timeout_ (t.inFrames frames) (t.inFrames (frame :: frames)) := by
  refine (Runs.refl _).tail (l := l) trivial (h.trans (congrArg some ?_))
  unfold TimerThreads.call inFrames
  rw [update_unit]

/-! ## The operations -/

/-- `Time::resetArriveTime`: it has read in one frame and sets the timer in the
next. -/
theorem leads_resetArriveTime (t : Timers κ) (frames : List (TimerFrame κ)) :
    Leads timeout_ (t.inFrames (.resetArriveTime :: frames))
      ((t.resetArriveTime timeout_).inFrames frames) := by
  unfold resetArriveTime
  split
  case h_1 hentries =>
    refine leads_run t .resetArriveTime frames [] ?_
    rw [TimerFrame.run, hentries]
  case h_2 it rest hentries =>
    have hread : Leads timeout_ (t.advance.inFrames (.resetArriveTime :: frames))
        (t.advance.inFrames (.settime (t.time.events it.2.event).arrive_time_
          (millis t.advance.clock.reading) :: frames)) :=
      leads_run t.advance .resetArriveTime frames [_]
        (TimerFrame.run_resetArriveTime timeout_ _ hentries)
    have hset : Leads timeout_ (t.advance.advance.inFrames (_ :: frames)) _ :=
      leads_run t.advance.advance (.settime (t.time.events it.2.event).arrive_time_
        (millis t.advance.clock.reading)) frames [] rfl
    exact (((leads_advance timeout_ t _).trans hread).trans (leads_advance timeout_ _ _)).trans hset

theorem leads_addTimerEvent (t : Timers κ) (e : ℕ) (frames : List (TimerFrame κ)) :
    Leads timeout_ (t.inFrames (.addTimerEvent e :: frames))
      ((t.addTimerEvent timeout_ e).inFrames frames) := by
  unfold addTimerEvent
  dsimp only
  split
  case isTrue hreset =>
    refine Runs.trans ?_ (leads_resetArriveTime { t with time := t.time.emplace e } frames)
    refine leads_run t (.addTimerEvent e) frames [.resetArriveTime] ?_
    rw [TimerFrame.run, if_pos hreset]
  case isFalse hreset =>
    refine leads_run t (.addTimerEvent e) frames [] ?_
    rw [TimerFrame.run, if_neg hreset]

theorem leads_deleteTimerEvent (t : Timers κ) (e : ℕ) (frames : List (TimerFrame κ)) :
    Leads timeout_ (t.inFrames (.setCancled e :: frames))
      ((t.deleteTimerEvent e).inFrames frames) := by
  have hcancle : Leads timeout_ (t.inFrames (.setCancled e :: frames)) _ :=
    leads_run t (.setCancled e) frames [.erase e] rfl
  exact hcancle.trans (leads_run { t with time := t.time.onEvent e (TimeEvent.setCancled true) }
    (.erase e) frames [] rfl)

/-- The loop over `tmps`. -/
theorem leads_readd (t : Timers κ) (tmps : List ℕ) (tasks : List (ℤ × Option κ)) :
    Leads timeout_ (t.inFrames (.readd tmps tasks :: frames))
      ((tmps.foldl (readd timeout_) t).inFrames (.readd [] tasks :: frames)) := by
  induction tmps generalizing t with
  | nil => exact Runs.refl _
  | cons e tmps ih =>
    refine Runs.trans ?_ (ih (t.readd timeout_ e))
    unfold readd
    split
    case isTrue hrep =>
      have hoff : Leads timeout_ (t.advance.inFrames (.readd (e :: tmps) tasks :: frames)) _ :=
        leads_run t.advance (.readd (e :: tmps) tasks) frames [_, _] (if_pos hrep)
      exact ((leads_advance timeout_ t _).trans hoff).trans (leads_addTimerEvent _ e _)
    case isFalse hrep => exact leads_run t (.readd (e :: tmps) tasks) frames [_] (if_neg hrep)

/-- `onTime`, up to its callbacks. -/
theorem leads_onTime (timeout_ : ℤ) (t : Timers κ) :
    Leads timeout_ (t.inFrames [])
      ((t.onTime timeout_).inFrames [.callbacks (t.time.tasks t.now)]) := by
  have hcall : Leads timeout_ (t.inFrames []) (t.inFrames [.read]) :=
    leads_call (l := .onTime ()) rfl
  have hread : Leads timeout_ (t.advance.inFrames [.read]) _ :=
    leads_run t.advance .read [] [.gettimeofday] rfl
  have hclock : Leads timeout_ (inFrames { t.advance.advance with
      time := t.time.read t.advance.clock.reading } [.gettimeofday]) _ :=
    leads_run _ .gettimeofday [] [.collect t.now] rfl
  have htake : Leads timeout_ (inFrames { t.advance.advance with
      time := t.time.read t.advance.clock.reading } [.collect t.now])
        (t.taken.inFrames [.readd (t.time.tmps t.now) (t.time.tasks t.now)]) :=
    leads_run _ (.collect t.now) [] [_] rfl
  have hloop := @leads_readd κ timeout_ [] t.taken (t.time.tmps t.now) (t.time.tasks t.now)
  have hset : Leads timeout_
      (((t.time.tmps t.now).foldl (readd timeout_) t.taken).inFrames
        [.readd [] (t.time.tasks t.now)]) _ :=
    leads_run _ (.readd [] (t.time.tasks t.now)) [] [.resetArriveTime, _] rfl
  have hnow : Leads timeout_ (t.inFrames [])
      (inFrames { t.advance with time := t.time.read t.advance.clock.reading } [.gettimeofday]) :=
    (hcall.trans (leads_advance timeout_ t _)).trans hread
  have htaken : Leads timeout_ (t.inFrames []) (t.taken.inFrames
      [.readd (t.time.tmps t.now) (t.time.tasks t.now)]) :=
    ((hnow.trans (leads_advance timeout_ _ _)).trans hclock).trans htake
  exact ((htaken.trans hloop).trans hset).trans (leads_resetArriveTime _ _)

/-! ## Runs -/

/-- The frames of the loop: it runs callbacks, or is in no operation. -/
def InLoop (t : Timers κ) (frames : List (TimerFrame κ)) : Prop :=
  frames = [.callbacks t.tasks] ∨ t.tasks = [] ∧ frames = []

theorem InLoop.canCall (h : t.InLoop frames) : TimerThreads.canCall frames = true := by
  obtain rfl | ⟨-, rfl⟩ := h
  · rfl
  · rfl

/-- **A step of the loop is a run of its thread.** -/
theorem step_leads {l : TimersStep κ} (h : t.InLoop frames)
    (hs : step timeout_ t l = some t') :
    ∃ frames', t'.InLoop frames' ∧ Leads timeout_ (t.inFrames frames) (t'.inFrames frames') := by
  cases l with
  | construct e interval is_repeated cb =>
    rw [step] at hs
    split at hs
    case isTrue => cases hs
    case isFalse hnew =>
      obtain rfl := Option.some.inj hs
      refine ⟨frames, h, (leads_advance timeout_ t frames).tail
        (l := .construct e interval is_repeated cb) trivial ?_⟩
      exact if_neg hnew
  | setCancled e value =>
    obtain rfl := Option.some.inj hs
    exact ⟨frames, h, (Runs.refl _).tail (l := .setCancled e value) trivial rfl⟩
  | addTimerEvent e =>
    rw [step] at hs
    split at hs
    case isTrue => cases hs
    case isFalse hnew =>
      obtain rfl := Option.some.inj hs
      refine ⟨frames, ?_, (leads_call (l := .addTimerEvent () e) (if_pos h.canCall)).trans
        (leads_addTimerEvent t e frames)⟩
      unfold InLoop
      rwa [(ran_addTimerEvent timeout_ t e).1]
  | deleteTimerEvent e =>
    obtain rfl := Option.some.inj hs
    exact ⟨frames, h, (leads_call (l := .deleteTimerEvent () e) (if_pos h.canCall)).trans
      (leads_deleteTimerEvent t e frames)⟩
  | onTime =>
    rw [step] at hs
    split at hs
    case isFalse => cases hs
    case isTrue htasks =>
      obtain rfl := Option.some.inj hs
      have hempty : t.tasks = [] := List.isEmpty_iff.mp htasks
      have hdone : Leads timeout_ (t.inFrames frames) (t.inFrames []) := by
        rcases h with rfl | ⟨-, rfl⟩
        · rw [hempty]
          exact leads_run t (.callbacks []) [] [] rfl
        · exact Runs.refl _
      exact ⟨_, Or.inl rfl, hdone.trans (leads_onTime timeout_ t)⟩
  | callback =>
    rw [step] at hs
    split at hs
    case h_1 => cases hs
    case h_2 arrive task tasks htasks =>
      obtain rfl := Option.some.inj hs
      refine ⟨[.callbacks tasks], Or.inl rfl, ?_⟩
      rcases h with rfl | ⟨hempty, -⟩
      · rw [htasks]
        exact leads_run t (.callbacks ((arrive, task) :: tasks)) [] [.callbacks tasks] rfl
      · rw [htasks] at hempty
        cases hempty

/-- **A run of the loop is a run of its thread.** -/
theorem runs_inFrames {events : ℕ → TimeEvent κ} {clock : Clock}
    (hrun : Runs (step timeout_) anyStep (init timeout_ events clock) t) :
    ∃ frames, t.InLoop frames ∧
      Leads timeout_ (TimerThreads.init timeout_ events clock.reading) (t.inFrames frames) := by
  have hinit : ∃ frames, (init timeout_ events clock).InLoop frames ∧
      Leads timeout_ (TimerThreads.init timeout_ events clock.reading)
        ((init timeout_ events clock).inFrames frames) :=
    ⟨[], Or.inr ⟨rfl, rfl⟩, Runs.refl _⟩
  refine hrun.invariant (I := fun t => ∃ frames, t.InLoop frames ∧
    Leads timeout_ (TimerThreads.init timeout_ events clock.reading) (t.inFrames frames))
    (fun t l t' hin _ hs => ?_) hinit
  obtain ⟨frames, hframes, hrun⟩ := hin
  obtain ⟨frames', hframes', hstep⟩ := step_leads hframes hs
  exact ⟨frames', hframes', hrun.trans hstep⟩

end Timers

end PbRpc
