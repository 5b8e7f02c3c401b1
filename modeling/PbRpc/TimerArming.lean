import Mathlib.Data.Fintype.Basic
import PbRpc.Time
import PbRpc.Transition

/-!
# Setting the timer in time

The timer should go off when the earliest of the pending events arrives.
`addTimerEvent` sets it for an event that arrives before the first one, and
`onTime` when it has taken what is due; both call `resetArriveTime`, which
reads the first event and the clock with the mutex held, and sets the timer
later. Here the operations are run by any number of threads, one at a time
between two critical sections or system calls, and the clock goes on at any
point. It is one clock for the events and for the timer file.

A timer that is *in time* (`Time.InTime`) stays so while events are added behind
the first and others are taken out, so only the last call of `timerfd_settime`
matters. There are three ways in which it comes out late. An event that has
arrived by the reading of the clock is not served at once but after `timeout_`:
`onTime` may have looked a moment before, and the rest of its work is done after
that moment. The thread may lose time between the reading and the call. And
another thread may have added an earlier event and have set the timer for it
already. `Timely` excludes them, and no more than what comes out late
(`inTime_iff`).
-/

namespace PbRpc

open Transition

namespace Time

variable {κ : Type} (t : Time κ) (clock : ℕ)

/-- The arrival times of the pending events. -/
def arrivals : List ℤ := t.pending_events_.entries.map (fun x => (t.events x.2.event).arrive_time_)

/-- The earliest of them. -/
def earliest : Option ℤ := t.arrivals.min?

/-- **The timer is in time**, if anything is pending: it has expired, or is to
expire at most a millisecond after the first event arrives, or after it was
set. -/
def InTime : Prop :=
  ∀ m ∈ t.earliest, ∃ armed ∈ t.timerfd,
    armed.expiry ≤ clock ∨ armed.expiry ≤ max (1000 * m) armed.armedAt + 1000

instance : Decidable (t.InTime clock) :=
  inferInstanceAs (Decidable (∀ m ∈ t.earliest, ∃ armed ∈ t.timerfd,
    armed.expiry ≤ clock ∨ armed.expiry ≤ max (1000 * m) armed.armedAt + 1000))

variable {t clock} {t' : Time κ} {e : ℕ} {m : ℤ}

theorem mem_earliest : m ∈ t.earliest ↔ m ∈ t.arrivals ∧ ∀ a ∈ t.arrivals, m ≤ a :=
  List.min?_eq_some_iff

theorem inTime_of_empty (h : t.pending_events_.entries = []) : t.InTime clock := by
  intro m hm
  have hnone : m ∈ t.arrivals := (mem_earliest.mp hm).1
  rw [arrivals, h] at hnone
  cases hnone

/-- **Time goes by.** -/
theorem InTime.later (h : t.InTime clock) (d : ℕ) : t.InTime (clock + d) := by
  intro m hm
  obtain ⟨armed, harmed, hexpiry⟩ := h m hm
  refine ⟨armed, harmed, hexpiry.imp_left fun hle => hle.trans ?_⟩
  exact_mod_cast Nat.le_add_right clock d

/-- **Fewer events, and later ones**, are pending, and the timer is as it
was. -/
theorem InTime.anti (h : t.InTime clock) (hfd : t'.timerfd = t.timerfd)
    (hlate : ∀ a ∈ t'.arrivals, ∃ m ∈ t.earliest, m ≤ a) : t'.InTime clock := by
  intro m' hm'
  obtain ⟨m, hm, hle⟩ := hlate m' (mem_earliest.mp hm').1
  obtain ⟨armed, harmed, hexpiry⟩ := h m hm
  refine ⟨armed, hfd ▸ harmed, hexpiry.imp_right fun hmax => hmax.trans ?_⟩
  have hmono : max (1000 * m) (armed.armedAt : ℤ) ≤ max (1000 * m') armed.armedAt :=
    max_le_max_right _ (by omega)
  omega

theorem exists_earliest {a : ℤ} (ha : a ∈ t.arrivals) : ∃ m ∈ t.earliest, m ≤ a := by
  have hsome : t.earliest.isSome = true := List.isSome_min?_of_mem ha
  obtain ⟨m, hm⟩ := Option.isSome_iff_exists.mp hsome
  exact ⟨m, hm, (mem_earliest.mp hm).2 a ha⟩

theorem InTime.subset (h : t.InTime clock) (hfd : t'.timerfd = t.timerfd)
    (hsub : ∀ a ∈ t'.arrivals, a ∈ t.arrivals) : t'.InTime clock :=
  h.anti hfd fun a ha => exists_earliest (hsub a ha)

/-- **An event that is added without setting the timer** is not earlier than
the first one. -/
theorem InTime.emplace (h : t.InTime clock) (hreset : t.isResetTimerfd e = false) :
    (t.emplace e).InTime clock := by
  refine h.anti rfl fun a ha => ?_
  obtain ⟨x, hx, rfl⟩ := List.mem_map.mp ha
  rcases (t.pending_events_.mem_emplace _ _).mp hx with rfl | hx
  · unfold isResetTimerfd at hreset
    split at hreset
    case h_1 => cases hreset
    case h_2 it rest hentries =>
      have hit : (t.events it.2.event).arrive_time_ ∈ t.arrivals :=
        List.mem_map_of_mem (hentries ▸ List.mem_cons_self)
      obtain ⟨m, hm, hle⟩ := exists_earliest hit
      exact ⟨m, hm, hle.trans (not_lt.mp (of_decide_eq_false hreset))⟩
  · exact exists_earliest (List.mem_map_of_mem hx)

theorem InTime.onEvent (h : t.InTime clock) {f : TimeEvent κ → TimeEvent κ}
    (hf : t.IsPending e → (f (t.events e)).arrive_time_ = (t.events e).arrive_time_) :
    (t.onEvent e f).InTime clock := by
  refine h.subset rfl fun a ha => ?_
  obtain ⟨x, hx, rfl⟩ := List.mem_map.mp ha
  exact List.mem_map.mpr ⟨x, hx, (arrive_onEvent hf hx).symm⟩

theorem InTime.erase (h : t.InTime clock) (e : ℕ) : (t.erase e).InTime clock := by
  refine h.subset rfl fun a ha => ?_
  have hsub : (t.erase e).pending_events_.entries.Sublist t.pending_events_.entries := by
    show (Multimap.eraseIn _ _ _).entries.Sublist _
    rw [Multimap.entries_eraseIn]
    exact List.eraseP_sublist
  exact (hsub.map _).subset ha

/-- The interval is what sets the timer in time, for the earliest event and
what was read of the first event and the clock: it is a millisecond, or the
clock has not gone on too far. -/
def Punctual (timeout_ : ℤ) (clock : ℕ) (m arrive now : ℤ) : Prop :=
  if now < arrive then arrive = now + 1 ∨ clock - 1000 * now ≤ 1000 * (m - arrive + 1)
  else timeout_ = 1 ∨ clock + 1000 * timeout_ ≤ 1000 * (m + 1)

instance (timeout_ : ℤ) (clock : ℕ) (m arrive now : ℤ) :
    Decidable (Punctual timeout_ clock m arrive now) :=
  inferInstanceAs (Decidable (ite _ _ _))

theorem inteval_pos {timeout_ : ℤ} (htimeout : 0 < timeout_) (arrive now : ℤ) :
    0 < inteval timeout_ arrive now := by
  unfold inteval
  split
  · omega
  · exact htimeout

/-- **When setting the timer sets it in time.** -/
theorem inTime_settime {timeout_ : ℤ} (htimeout : 0 < timeout_) (arrive now : ℤ) :
    (t.settime clock (inteval timeout_ arrive now)).InTime clock
      ↔ ∀ m ∈ t.earliest, Punctual timeout_ clock m arrive now := by
  have hpos := inteval_pos htimeout arrive now
  have hset : (t.settime clock (inteval timeout_ arrive now)).timerfd
      = some ⟨clock + 1000 * inteval timeout_ arrive now, clock⟩ := timerfd_settime_of_pos hpos _ _
  refine forall₂_congr fun m _ => ?_
  rw [hset]
  have hmax : (clock : ℤ) + 1000 * inteval timeout_ arrive now ≤ max (1000 * m) clock + 1000
      ↔ Punctual timeout_ clock m arrive now := by
    unfold Punctual
    unfold inteval at hpos ⊢
    split
    · omega
    · omega
  rw [← hmax]
  constructor
  · rintro ⟨armed, harmed, hexpiry⟩
    obtain rfl := Option.some.inj harmed
    rcases hexpiry with hexpiry | hexpiry
    · exact absurd hexpiry (by dsimp only; omega)
    · exact hexpiry
  · intro hle
    exact ⟨_, rfl, Or.inr hle⟩

end Time

/-! ## Threads -/

/-- Where a thread is in an operation. What stands in a frame was read
before. -/
inductive TimerFrame (κ : Type) where
  /-- `addTimerEvent`, before its critical section. -/
  | addTimerEvent (e : ℕ)
  /-- `Time::resetArriveTime`, before its critical section. -/
  | resetArriveTime
  /-- It is to set the timer, and has read when the first event arrives and the
  clock. -/
  | settime (arrive now : ℤ)
  /-- `deleteTimerEvent`. -/
  | setCancled (e : ℕ)
  /-- Its critical section. -/
  | erase (e : ℕ)
  /-- `onTime`, before it reads the timer file. -/
  | read
  /-- Before it reads the clock. -/
  | gettimeofday
  /-- Before its critical section. -/
  | collect (now : ℤ)
  /-- In the loop over `tmps`. -/
  | readd (tmps : List ℕ) (tasks : List (ℤ × Option κ))
  /-- It runs the callbacks. -/
  | callbacks (tasks : List (ℤ × Option κ))

namespace TimerFrame

variable {κ : Type}

/-- **The timer will be set** by what this frame leads to, if anything is
pending. -/
def willArm : TimerFrame κ → Bool
  | .resetArriveTime | .settime _ _ | .read | .gettimeofday | .collect _ | .readd _ _ => true
  | .addTimerEvent _ | .setCancled _ | .erase _ | .callbacks _ => false

/-- **What a frame does next**, and the frames that are in its place then. -/
def run (timeout_ : ℤ) (time : Time κ) (clock : ℕ) : TimerFrame κ → Time κ × List (TimerFrame κ)
  | .addTimerEvent e =>
    (time.emplace e, if time.isResetTimerfd e then [.resetArriveTime] else [])
  | .resetArriveTime =>
    match time.pending_events_.entries with
    | [] => (time, [])
    | it :: _ => (time, [.settime (time.events it.2.event).arrive_time_ (millis clock)])
  | .settime arrive now => (time.settime clock (Time.inteval timeout_ arrive now), [])
  | .setCancled e => (time.onEvent e (TimeEvent.setCancled true), [.erase e])
  | .erase e => (time.erase e, [])
  | .read => (time.read clock, [.gettimeofday])
  | .gettimeofday => (time, [.collect (millis clock)])
  | .collect now => (time.eraseUpTo now, [.readd (time.tmps now) (time.tasks now)])
  | .readd [] tasks => (time, [.resetArriveTime, .callbacks tasks])
  | .readd (e :: tmps) tasks =>
    if (time.events e).is_repeated_ then
      (time.onEvent e (TimeEvent.resetArriveTime clock), [.addTimerEvent e, .readd tmps tasks])
    else (time, [.readd tmps tasks])
  | .callbacks [] => (time, [])
  | .callbacks (_ :: tasks) => (time, [.callbacks tasks])

theorem run_resetArriveTime (timeout_ : ℤ) {time : Time κ} (clock : ℕ)
    {it : ℤ × PendingEvent} {rest : List (ℤ × PendingEvent)}
    (hit : time.pending_events_.entries = it :: rest) :
    run timeout_ time clock .resetArriveTime
      = (time, [.settime (time.events it.2.event).arrive_time_ (millis clock)]) := by
  rw [run, hit]

/-- **What a frame does, but for setting the timer**: the timer will be set, or
it is in time, or it stays so and the frame was not going to set it. -/
theorem run_cases (timeout_ : ℤ) (time : Time κ) (clock : ℕ) (frame : TimerFrame κ)
    (hframe : ∀ arrive now, frame ≠ .settime arrive now) :
    (∃ g ∈ (frame.run timeout_ time clock).2, g.willArm = true) ∨
      (frame.run timeout_ time clock).1.InTime clock ∨
      frame.willArm = false ∧
        (time.InTime clock → (frame.run timeout_ time clock).1.InTime clock) := by
  cases frame with
  | addTimerEvent e =>
    rw [run]
    split
    · exact Or.inl ⟨_, List.mem_singleton_self _, rfl⟩
    · rename_i hreset
      exact Or.inr (Or.inr ⟨rfl, fun h => h.emplace (eq_false_of_ne_true hreset)⟩)
  | resetArriveTime =>
    rw [run]
    split
    case h_1 hentries => exact Or.inr (Or.inl (Time.inTime_of_empty hentries))
    case h_2 => exact Or.inl ⟨_, List.mem_singleton_self _, rfl⟩
  | settime arrive now => exact absurd rfl (hframe arrive now)
  | setCancled e =>
    exact Or.inr (Or.inr ⟨rfl, fun h => h.onEvent fun _ => rfl⟩)
  | erase e => exact Or.inr (Or.inr ⟨rfl, fun h => h.erase e⟩)
  | read => exact Or.inl ⟨_, List.mem_singleton_self _, rfl⟩
  | gettimeofday => exact Or.inl ⟨_, List.mem_singleton_self _, rfl⟩
  | collect now => exact Or.inl ⟨_, List.mem_singleton_self _, rfl⟩
  | readd tmps tasks =>
    cases tmps with
    | nil => exact Or.inl ⟨_, List.mem_cons_self, rfl⟩
    | cons e tmps =>
      rw [run]
      split
      · exact Or.inl ⟨_, List.mem_cons_of_mem _ List.mem_cons_self, rfl⟩
      · exact Or.inl ⟨_, List.mem_cons_self, rfl⟩
  | callbacks tasks =>
    cases tasks with
    | nil => exact Or.inr (Or.inr ⟨rfl, id⟩)
    | cons task tasks => exact Or.inr (Or.inr ⟨rfl, id⟩)

end TimerFrame

/-- **A timer and the threads that use it.** A thread has the frames of the
operations it is in, the innermost first. -/
structure TimerThreads (ι κ : Type) where
  time : Time κ
  /-- In microseconds. -/
  clock : ℕ
  threads : ι → List (TimerFrame κ) := fun _ => []

/-- A step of a thread, of an owner of an event, or of the clock. -/
inductive TimerThreadsStep (ι κ : Type) where
  | elapse (d : ℕ)
  | construct (e : ℕ) (interval : ℤ) (is_repeated : Bool) (cb : Option κ)
  | setCancled (e : ℕ) (value : Bool)
  | addTimerEvent (i : ι) (e : ℕ)
  | deleteTimerEvent (i : ι) (e : ℕ)
  | onTime (i : ι)
  | run (i : ι)

namespace TimerThreads

variable {ι κ : Type} [DecidableEq ι] (timeout_ : ℤ)

/-- Before anything was added. -/
def init (events : ℕ → TimeEvent κ) (clock : ℕ) : TimerThreads ι κ where
  time := Time.make timeout_ events clock
  clock := clock

/-- A thread may call an operation if it is in none, or runs a callback. -/
def canCall : List (TimerFrame κ) → Bool
  | [] => true
  | .callbacks _ :: _ => true
  | _ => false

/-- A thread is in a frame. -/
def call (s : TimerThreads ι κ) (i : ι) (frame : TimerFrame κ) : TimerThreads ι κ :=
  { s with threads := Function.update s.threads i (frame :: s.threads i) }

/-- **One step.** -/
def step (s : TimerThreads ι κ) : TimerThreadsStep ι κ → Option (TimerThreads ι κ)
  | .elapse d => some { s with clock := s.clock + d }
  | .construct e interval is_repeated cb =>
    if s.time.IsPending e then none
    else
      let event := TimeEvent.make interval is_repeated cb s.clock
      some { s with time := s.time.onEvent e (fun _ => event) }
  | .setCancled e value => some { s with time := s.time.onEvent e (TimeEvent.setCancled value) }
  | .addTimerEvent i e => if canCall (s.threads i) then some (s.call i (.addTimerEvent e)) else none
  | .deleteTimerEvent i e => if canCall (s.threads i) then some (s.call i (.setCancled e)) else none
  | .onTime i => if (s.threads i).isEmpty then some (s.call i .read) else none
  | .run i =>
    match s.threads i with
    | [] => none
    | frame :: frames =>
      let (time, next) := frame.run timeout_ s.time s.clock
      some { s with time, threads := Function.update s.threads i (next ++ frames) }

/-- No thread is in an operation. -/
def Quiescent (s : TimerThreads ι κ) : Prop := ∀ i, s.threads i = []

/-- Some thread is still to set the timer. -/
def WillArm (threads : ι → List (TimerFrame κ)) : Prop :=
  ∃ i, ∃ frame ∈ threads i, frame.willArm = true

instance [Fintype ι] (threads : ι → List (TimerFrame κ)) : Decidable (WillArm threads) :=
  inferInstanceAs (Decidable (∃ i, ∃ frame ∈ threads i, frame.willArm = true))

/-- What a thread that is about to set the timer has read. -/
def aboutToSet : List (TimerFrame κ) → Option (ℤ × ℤ)
  | .settime arrive now :: _ => some (arrive, now)
  | _ => none

/-- **The condition on a step**: where the timer is set and no thread is to set
it after that, what was read is punctual for the earliest event that is
pending now. -/
def Timely (s : TimerThreads ι κ) : TimerThreadsStep ι κ → Prop
  | .run i => ∀ read ∈ aboutToSet (s.threads i),
      WillArm (Function.update s.threads i (s.threads i).tail) ∨
        ∀ m ∈ s.time.earliest, Time.Punctual timeout_ s.clock m read.1 read.2
  | _ => True

instance [Fintype ι] (s : TimerThreads ι κ) (l : TimerThreadsStep ι κ) :
    Decidable (s.Timely timeout_ l) :=
  match l with
  | .run i => inferInstanceAs (Decidable (∀ read ∈ aboutToSet (s.threads i),
      WillArm (Function.update s.threads i (s.threads i).tail) ∨
        ∀ m ∈ s.time.earliest, Time.Punctual timeout_ s.clock m read.1 read.2))
  | .elapse _ => isTrue trivial
  | .construct _ _ _ _ => isTrue trivial
  | .setCancled _ _ => isTrue trivial
  | .addTimerEvent _ _ => isTrue trivial
  | .deleteTimerEvent _ _ => isTrue trivial
  | .onTime _ => isTrue trivial

variable {timeout_} {s s' : TimerThreads ι κ} {i : ι} {frame : TimerFrame κ}
  {frames : List (TimerFrame κ)}

/-! ## What a step does -/

theorem step_run (hs : step timeout_ s (.run i) = some s') : ∃ frame frames,
    s.threads i = frame :: frames ∧ s' =
      { time := (frame.run timeout_ s.time s.clock).1
        clock := s.clock
        threads := Function.update s.threads i
          ((frame.run timeout_ s.time s.clock).2 ++ frames) } := by
  rw [step] at hs
  split at hs
  case h_1 => cases hs
  case h_2 frame frames hi => exact ⟨frame, frames, hi, (Option.some.inj hs).symm⟩

/-- A call changes nothing but the frames. -/
theorem step_call {c : Bool} (hs : (if c = true then some (s.call i frame) else none) = some s') :
    s' = s.call i frame := by
  split at hs
  · exact (Option.some.inj hs).symm
  · cases hs

theorem timely_settime {arrive now : ℤ} (hi : s.threads i = .settime arrive now :: frames) :
    Timely timeout_ s (.run i) ↔ WillArm (Function.update s.threads i frames) ∨
      ∀ m ∈ s.time.earliest, Time.Punctual timeout_ s.clock m arrive now := by
  show (∀ read ∈ aboutToSet (s.threads i), WillArm (Function.update s.threads i (s.threads i).tail) ∨
    ∀ m ∈ s.time.earliest, Time.Punctual timeout_ s.clock m read.1 read.2) ↔ _
  rw [hi]
  exact ⟨fun h => h (arrive, now) rfl, fun h read hread => Option.some.inj hread ▸ h⟩

theorem timely_of_ne (hi : s.threads i = frame :: frames)
    (hframe : ∀ arrive now, frame ≠ .settime arrive now) : Timely timeout_ s (.run i) := by
  intro read hread
  rw [hi] at hread
  unfold aboutToSet at hread
  split at hread
  case h_1 heq => exact absurd (List.cons.inj heq).1 (hframe _ _)
  case h_2 => cases hread

/-! ## The timer will be set or is in time -/

/-- **Some thread will set the timer, or it is in time.** -/
def Settled (s : TimerThreads ι κ) : Prop := WillArm s.threads ∨ s.time.InTime s.clock

/-- Frames of a thread that are left, and those of the others, will set the
timer as before. -/
theorem willArm_update {next : List (TimerFrame κ)} (hi : s.threads i = frame :: frames)
    (hframe : frame.willArm = false) (h : WillArm s.threads) :
    WillArm (Function.update s.threads i (next ++ frames)) := by
  obtain ⟨j, g, hg, harm⟩ := h
  by_cases hj : j = i
  · subst hj
    rw [hi] at hg
    rcases List.mem_cons.mp hg with rfl | hg
    · rw [hframe] at harm
      cases harm
    · refine ⟨j, g, ?_, harm⟩
      rw [Function.update_self]
      exact List.mem_append_right next hg
  · refine ⟨j, g, ?_, harm⟩
    rwa [Function.update_of_ne hj]

theorem Settled.call (h : s.Settled) (i : ι) (frame : TimerFrame κ) :
    (s.call i frame).Settled := by
  refine h.imp_left fun ⟨j, g, hg, harm⟩ => ⟨j, g, ?_, harm⟩
  show g ∈ Function.update s.threads i (frame :: s.threads i) j
  by_cases hj : j = i
  · subst hj
    rw [Function.update_self]
    exact List.mem_cons_of_mem frame hg
  · rwa [Function.update_of_ne hj]

theorem Settled.run (htimeout : 0 < timeout_) (h : s.Settled) (ht : Timely timeout_ s (.run i))
    (hs : step timeout_ s (.run i) = some s') : s'.Settled := by
  obtain ⟨frame, frames, hi, rfl⟩ := step_run hs
  by_cases hset : ∃ arrive now, frame = .settime arrive now
  · obtain ⟨arrive, now, rfl⟩ := hset
    exact ((timely_settime hi).mp ht).imp_right (Time.inTime_settime htimeout arrive now).mpr
  · have hframe : ∀ arrive now, frame ≠ .settime arrive now :=
      fun arrive now heq => hset ⟨arrive, now, heq⟩
    rcases frame.run_cases timeout_ s.time s.clock hframe with ⟨g, hg, harm⟩ | hin | ⟨hnot, hkeep⟩
    · refine Or.inl ⟨i, g, ?_, harm⟩
      show g ∈ Function.update s.threads i _ i
      rw [Function.update_self]
      exact List.mem_append_left frames hg
    · exact Or.inr hin
    · exact h.imp (willArm_update hi hnot) hkeep

/-- **One step keeps it**, if it meets the condition. -/
theorem Settled.step {l : TimerThreadsStep ι κ} (htimeout : 0 < timeout_) (h : s.Settled)
    (ht : Timely timeout_ s l) (hs : step timeout_ s l = some s') : s'.Settled := by
  cases l with
  | elapse d =>
    obtain rfl := Option.some.inj hs
    exact h.imp_right fun hin => hin.later d
  | construct e interval is_repeated cb =>
    rw [TimerThreads.step] at hs
    split at hs
    · cases hs
    · rename_i hnew
      obtain rfl := Option.some.inj hs
      exact h.imp_right fun hin =>
        Time.InTime.onEvent (f := fun _ => TimeEvent.make interval is_repeated cb _) hin
          fun hp => absurd hp hnew
  | setCancled e value =>
    obtain rfl := Option.some.inj hs
    exact h.imp_right fun hin => hin.onEvent fun _ => rfl
  | addTimerEvent i e =>
    obtain rfl := step_call hs
    exact h.call i _
  | deleteTimerEvent i e =>
    obtain rfl := step_call hs
    exact h.call i _
  | onTime i =>
    obtain rfl := step_call hs
    exact h.call i _
  | run i => exact h.run htimeout ht hs

omit [DecidableEq ι] in
theorem not_willArm (h : s.Quiescent) : ¬ WillArm s.threads := by
  rintro ⟨i, g, hg, -⟩
  rw [h i] at hg
  cases hg

omit [DecidableEq ι] in
theorem Settled.inTime (h : s.Settled) (hq : s.Quiescent) : s.time.InTime s.clock :=
  h.resolve_left (not_willArm hq)

/-- **In a run whose steps meet the condition**, the timer is in time whenever
no thread is in an operation; and the condition cannot be weaker for a step
after which none is. -/
theorem inTime_iff (htimeout : 0 < timeout_) {events : ℕ → TimeEvent κ} {clock : ℕ}
    (hrun : Runs (step timeout_) (Timely timeout_) (init timeout_ events clock) s) :
    (s.Quiescent → s.time.InTime s.clock) ∧
      ∀ l s', step timeout_ s l = some s' → s'.Quiescent →
        (s'.time.InTime s'.clock ↔ Timely timeout_ s l) := by
  have hinit : (init timeout_ events clock : TimerThreads ι κ).Settled :=
    Or.inr (Time.inTime_of_empty rfl)
  have h : s.Settled :=
    hrun.invariant (fun _ _ _ hsettled ht hs => hsettled.step htimeout ht hs) hinit
  refine ⟨h.inTime, fun l s' hs hq => ⟨fun hin => ?_, fun ht => (h.step htimeout ht hs).inTime hq⟩⟩
  cases l with
  | run i =>
    obtain ⟨frame, frames, hi, rfl⟩ := step_run hs
    by_cases hset : ∃ arrive now, frame = .settime arrive now
    · obtain ⟨arrive, now, rfl⟩ := hset
      exact (timely_settime hi).mpr (Or.inr ((Time.inTime_settime htimeout arrive now).mp hin))
    · exact timely_of_ne hi fun arrive now heq => hset ⟨arrive, now, heq⟩
  | elapse d => trivial
  | construct e interval is_repeated cb => trivial
  | setCancled e value => trivial
  | addTimerEvent i e => trivial
  | deleteTimerEvent i e => trivial
  | onTime i => trivial

instance [Fintype ι] (s : TimerThreads ι κ) : Decidable s.Quiescent :=
  inferInstanceAs (Decidable (∀ i, (s.threads i) = []))

/-- An event that arrives at 10 ms and one at 11 ms, and the `onTime` that
serves the first, up to `resetArriveTime`. -/
def twoEvents : List (TimerThreadsStep Unit ℕ) :=
  [.construct 0 10 false (some 0), .addTimerEvent () 0, .run (), .run (), .run (),
    .construct 1 11 false (some 1), .addTimerEvent () 1, .run (), .elapse 10000, .onTime (),
    .run (), .run (), .run (), .run (), .run ()]

/-- The rest of `onTime` takes no time. -/
theorem inTime_twoEvents : ∃ s : TimerThreads Unit ℕ, s.time.InTime s.clock ∧
    s.time.pending = [(11, 1)] ∧ s.time.timerfd = some ⟨11000, 10000⟩ := by
  obtain ⟨s, hrun, hs⟩ : ∃ s : TimerThreads Unit ℕ, Runs (restrict (step 5000) (Timely 5000))
      anyStep (init 5000 (fun _ => TimeEvent.make 0 false none 0) 0) s ∧
        decide (s.Quiescent ∧ s.time.pending = [(11, 1)] ∧
          s.time.timerfd = some ⟨11000, 10000⟩) = true :=
    exists_of_execute (twoEvents ++ [.run (), .run (), .run (), .run ()]) (by decide +kernel)
  obtain ⟨hquiescent, hstate⟩ := of_decide_eq_true hs
  exact ⟨s, (inTime_iff (by decide) (runs_of_restrict hrun)).1 hquiescent, hstate⟩

/-- The second event arrives before `resetArriveTime` reads the clock. The
timer is set to the five seconds of `timeout_`. -/
theorem not_inTime : ∃ s : TimerThreads Unit ℕ, Runs (step 5000) anyStep
    (init 5000 (fun _ => TimeEvent.make 0 false none 0) 0) s ∧ s.Quiescent ∧
      ¬ s.time.InTime s.clock ∧ s.clock = 11000 ∧ s.time.pending = [(11, 1)] ∧
      s.time.timerfd = some ⟨5011000, 11000⟩ := by
  obtain ⟨s, hrun, hs⟩ : ∃ s : TimerThreads Unit ℕ, Runs (step 5000) anyStep
      (init 5000 (fun _ => TimeEvent.make 0 false none 0) 0) s ∧
        decide (s.Quiescent ∧ ¬ s.time.InTime s.clock ∧ s.clock = 11000 ∧
          s.time.pending = [(11, 1)] ∧ s.time.timerfd = some ⟨5011000, 11000⟩) = true :=
    exists_of_execute (twoEvents ++ [.elapse 1000, .run (), .run (), .run (), .run ()])
      (by decide +kernel)
  exact ⟨s, hrun, of_decide_eq_true hs⟩

end TimerThreads

end PbRpc
