import PbRpc.Time
import PbRpc.Transition

/-!
# Serving timer events

One loop adds, deletes and serves the events of a `Time`. `onTime` reads the
clock, takes the entries that are past, puts off the repeated events among
them, one by one and each by a reading of its own, sets the timer and runs the
callbacks it has taken. A callback may call the other operations, so the
callbacks that are left are part of the state, and the operations are steps
between them.

That the entries `onTime` takes are the events whose time has come rests on the
agreement of keys and arrival times. It is kept although arrival times change,
because an event is taken out before it is put off: the run of the loop over
`tmps` finds no event of `tmps` pending (`Readded`).
-/

namespace PbRpc

open Transition
open scoped List

/-- **A clock** that counts microseconds, and what passes on it before each of
the next times it is looked at. -/
structure Clock where
  reading : ℕ
  elapse : ℕ → ℕ

/-- The next time the clock is looked at. -/
def Clock.advance (clock : Clock) : Clock where
  reading := clock.reading + clock.elapse 0
  elapse n := clock.elapse (n + 1)

theorem Clock.reading_le_advance (clock : Clock) : clock.reading ≤ clock.advance.reading :=
  Nat.le_add_right _ _

/-- **A timer in its loop.** -/
structure Timers (κ : Type) where
  time : Time κ
  clock : Clock
  /-- What `onTime` has yet to run. -/
  tasks : List (ℤ × Option κ) := []
  /-- The callbacks that were run. -/
  ran : List κ := []

/-- A step of the loop, or of an owner of an event. -/
inductive TimersStep (κ : Type) where
  | construct (e : ℕ) (interval : ℤ) (is_repeated : Bool) (cb : Option κ)
  | setCancled (e : ℕ) (value : Bool)
  | addTimerEvent (e : ℕ)
  | deleteTimerEvent (e : ℕ)
  /-- `onTime` up to its callbacks. -/
  | onTime
  /-- The next callback. -/
  | callback

namespace Timers

variable {κ : Type} (timeout_ : ℤ)

/-- Before anything was added. -/
def init (events : ℕ → TimeEvent κ) (clock : Clock) : Timers κ where
  time := Time.make timeout_ events clock.reading
  clock := clock

variable (t : Timers κ) (e : ℕ)

/-- The clock is looked at. -/
def advance : Timers κ := { t with clock := t.clock.advance }

/-- `Time::resetArriveTime`. -/
def resetArriveTime : Timers κ :=
  match t.time.pending_events_.entries with
  | [] => t
  | it :: _ =>
    let now := millis t.advance.clock.reading
    let inteval := Time.inteval timeout_ (t.time.events it.2.event).arrive_time_ now
    let t := t.advance.advance
    { t with time := t.time.settime t.clock.reading inteval }

def addTimerEvent : Timers κ :=
  let is_reset_timerfd := t.time.isResetTimerfd e
  let t := { t with time := t.time.emplace e }
  if is_reset_timerfd then t.resetArriveTime timeout_ else t

def deleteTimerEvent : Timers κ :=
  { t with time := (t.time.onEvent e (TimeEvent.setCancled true)).erase e }

/-- An event is put off, if it is repeated. -/
def readd : Timers κ :=
  if (t.time.events e).is_repeated_ then
    let t := t.advance
    addTimerEvent timeout_
      { t with time := t.time.onEvent e (TimeEvent.resetArriveTime t.clock.reading) } e
  else t

/-- The reading of the clock that `onTime` takes. -/
def now : ℤ := millis t.advance.advance.clock.reading

/-- `onTime`, up to its callbacks. -/
def onTime : Timers κ :=
  let t := t.advance
  let t := { t with time := t.time.read t.clock.reading }
  let t := t.advance
  let now := millis t.clock.reading
  let tmps := t.time.tmps now
  let tasks := t.time.tasks now
  let t := { t with time := t.time.eraseUpTo now }
  let t := (tmps.foldl (readd timeout_) t).resetArriveTime timeout_
  { t with tasks := tasks }

/-- **One step.** No event is constructed in the place of one that is pending,
one that is added is not pending, and `onTime` is called when it is not
running. -/
def step : TimersStep κ → Option (Timers κ)
  | .construct e interval is_repeated cb =>
    if t.time.IsPending e then none
    else
      let t := t.advance
      let event := TimeEvent.make interval is_repeated cb t.clock.reading
      some { t with time := t.time.onEvent e (fun _ => event) }
  | .setCancled e value => some { t with time := t.time.onEvent e (TimeEvent.setCancled value) }
  | .addTimerEvent e => if t.time.IsPending e then none else some (t.addTimerEvent timeout_ e)
  | .deleteTimerEvent e => some (t.deleteTimerEvent e)
  | .onTime => if t.tasks.isEmpty then some (t.onTime timeout_) else none
  | .callback =>
    match t.tasks with
    | [] => none
    | (_, task) :: tasks => some { t with tasks := tasks, ran := t.ran ++ task.toList }

/-! ## Adding -/

variable {timeout_ t e} {t' : Timers κ}

/-- **Setting the timer** changes the timer file, and the clock goes on. -/
theorem resetArriveTime_eq (timeout_ : ℤ) (t : Timers κ) :
    ∃ timerfd clock, t.clock.reading ≤ clock.reading ∧
      t.resetArriveTime timeout_ = { t with time := { t.time with timerfd }, clock } := by
  unfold resetArriveTime
  split
  · exact ⟨t.time.timerfd, t.clock, le_rfl, rfl⟩
  · exact ⟨_, t.clock.advance.advance,
      t.clock.reading_le_advance.trans t.clock.advance.reading_le_advance, rfl⟩

/-- **Adding an event** puts it in, and may set the timer. -/
theorem addTimerEvent_eq (timeout_ : ℤ) (t : Timers κ) (e : ℕ) :
    ∃ timerfd clock, t.clock.reading ≤ clock.reading ∧
      t.addTimerEvent timeout_ e = { t with time := { t.time.emplace e with timerfd }, clock } := by
  unfold addTimerEvent
  dsimp only
  split
  · exact resetArriveTime_eq timeout_ { t with time := t.time.emplace e }
  · exact ⟨t.time.timerfd, t.clock, le_rfl, rfl⟩

/-- The timer file is no part of what is kept. -/
theorem keyed_timerfd {time : Time κ} (h : time.Keyed) (timerfd : Option Armed) :
    Time.Keyed { time with timerfd } :=
  ⟨h.keys, h.nodup, h.ordered, h.numbered⟩

theorem keyed_addTimerEvent (h : t.time.Keyed) (hnew : ¬ t.time.IsPending e) :
    (t.addTimerEvent timeout_ e).time.Keyed := by
  obtain ⟨timerfd, clock, -, hadd⟩ := addTimerEvent_eq timeout_ t e
  rw [hadd]
  exact keyed_timerfd (h.emplace hnew) timerfd

/-! ## Putting off the repeated events -/

/-- The repeated events of a list. -/
def repeated (t : Timers κ) (tmps : List ℕ) : List ℕ :=
  tmps.filter (fun e => (t.time.events e).is_repeated_)

/-- **What the loop over `tmps` does**: each repeated event of them is pending
again, at a time that is its interval after a reading of the clock. -/
structure Readded (tmps : List ℕ) (t t' : Timers κ) : Prop where
  keyed : t'.time.Keyed
  later : t.clock.reading ≤ t'.clock.reading
  renewed : ∀ e ∈ t.repeated tmps, ∃ clock, t.clock.reading ≤ clock ∧ clock ≤ t'.clock.reading ∧
    t'.time.events e = (t.time.events e).resetArriveTime clock
  others : ∀ e ∉ t.repeated tmps, t'.time.events e = t.time.events e
  pending : t'.time.pending.Perm (t.time.pending
    ++ (t.repeated tmps).map (fun e => ((t'.time.events e).arrive_time_, e)))
  ran : t'.ran = t.ran

/-- One round of the loop, over an event that is repeated. -/
theorem readd_eq (timeout_ : ℤ) (h : (t.time.events e).is_repeated_ = true) :
    ∃ timerfd clock, t.advance.clock.reading ≤ clock.reading ∧
      t.readd timeout_ e = { t with
        time := { (t.time.onEvent e
          (TimeEvent.resetArriveTime t.advance.clock.reading)).emplace e with timerfd }
        clock } := by
  unfold readd
  rw [if_pos h]
  exact addTimerEvent_eq timeout_ { t.advance with
    time := t.time.onEvent e (TimeEvent.resetArriveTime t.advance.clock.reading) } e

theorem Readded.readd (h : t.time.Keyed) (hnew : ¬ t.time.IsPending e) :
    Readded [e] t (t.readd timeout_ e) := by
  by_cases hrep : (t.time.events e).is_repeated_ = true
  · have hone : t.repeated [e] = [e] := List.filter_cons_of_pos hrep
    obtain ⟨timerfd, clock, hclock, hreadd⟩ := readd_eq timeout_ hrep
    have hself : (t.readd timeout_ e).time.events e
        = (t.time.events e).resetArriveTime t.advance.clock.reading := by
      rw [hreadd]
      exact Function.update_self _ _ _
    refine ⟨?_, ?_, fun a ha => ?_, fun a ha => ?_, ?_, ?_⟩
    · rw [hreadd]
      exact keyed_timerfd ((h.onEvent fun hp => absurd hp hnew).emplace hnew) timerfd
    · rw [hreadd]
      exact t.clock.reading_le_advance.trans hclock
    · rw [hone, List.mem_singleton] at ha
      subst ha
      refine ⟨t.advance.clock.reading, t.clock.reading_le_advance, ?_, hself⟩
      rw [hreadd]
      exact hclock
    · rw [hone, List.mem_singleton] at ha
      rw [hreadd]
      exact Function.update_of_ne ha _ _
    · rw [hone, List.map_singleton, hself, hreadd]
      refine Time.pending_emplace.trans ?_
      have hevent : (t.time.onEvent e (TimeEvent.resetArriveTime t.advance.clock.reading)).events e
          = (t.time.events e).resetArriveTime t.advance.clock.reading := Function.update_self _ _ _
      rw [hevent]
      exact (List.perm_append_singleton _ _).symm
    · rw [hreadd]
  · have hnone : t.repeated [e] = [] := List.filter_cons_of_neg hrep
    have hreadd : t.readd timeout_ e = t := by
      unfold Timers.readd
      exact if_neg hrep
    rw [hreadd]
    refine ⟨h, le_rfl, fun a ha => ?_, fun _ _ => rfl, ?_, rfl⟩
    · rw [hnone] at ha
      cases ha
    · rw [hnone, List.map_nil, List.append_nil]

theorem Readded.is_repeated_ {tmps : List ℕ} (h : Readded tmps t t') (a : ℕ) :
    (t'.time.events a).is_repeated_ = (t.time.events a).is_repeated_ := by
  by_cases ha : a ∈ t.repeated tmps
  · obtain ⟨clock, -, -, hevent⟩ := h.renewed a ha
    rw [hevent]
    rfl
  · rw [h.others a ha]

/-- **One round and then the others**, over different events. -/
theorem Readded.cons {tmps : List ℕ} {t₁ : Timers κ} (h : Readded [e] t t₁)
    (h' : Readded tmps t₁ t') (hne : e ∉ tmps) : Readded (e :: tmps) t t' := by
  have hsame : t₁.repeated tmps = t.repeated tmps :=
    List.filter_congr fun a _ => h.is_repeated_ a
  have hsplit : t.repeated (e :: tmps) = t.repeated [e] ++ t.repeated tmps :=
    List.filter_append [e] tmps
  have hlast : ∀ a ∈ t.repeated [e], t'.time.events a = t₁.time.events a := by
    intro a ha
    refine h'.others a fun hmem => hne ?_
    rw [List.mem_singleton.mp (List.mem_of_mem_filter ha)] at hmem
    exact List.mem_of_mem_filter hmem
  have hfirst : ∀ a ∈ t.repeated tmps, t₁.time.events a = t.time.events a := by
    intro a ha
    refine h.others a fun hmem => hne ?_
    rw [← List.mem_singleton.mp (List.mem_of_mem_filter hmem)]
    exact List.mem_of_mem_filter ha
  refine ⟨h'.keyed, h.later.trans h'.later, fun a ha => ?_, fun a ha => ?_, ?_,
    h'.ran.trans h.ran⟩
  · rw [hsplit, List.mem_append] at ha
    rcases ha with ha | ha
    · obtain ⟨clock, hlo, hhi, hevent⟩ := h.renewed a ha
      exact ⟨clock, hlo, hhi.trans h'.later, (hlast a ha).trans hevent⟩
    · obtain ⟨clock, hlo, hhi, hevent⟩ := h'.renewed a (hsame ▸ ha)
      exact ⟨clock, h.later.trans hlo, hhi, by rw [hevent, hfirst a ha]⟩
  · rw [hsplit, List.mem_append, not_or] at ha
    rw [h'.others a (hsame ▸ ha.2), h.others a ha.1]
  · have hone : (t.repeated [e]).map (fun a => ((t₁.time.events a).arrive_time_, a))
        = (t.repeated [e]).map (fun a => ((t'.time.events a).arrive_time_, a)) :=
      List.map_congr_left fun a ha => by rw [hlast a ha]
    calc t'.time.pending
        ~ t₁.time.pending
          ++ (t₁.repeated tmps).map (fun a => ((t'.time.events a).arrive_time_, a)) := h'.pending
      _ ~ (t.time.pending ++ (t.repeated [e]).map (fun a => ((t₁.time.events a).arrive_time_, a)))
          ++ (t.repeated tmps).map (fun a => ((t'.time.events a).arrive_time_, a)) := by
          rw [hsame]
          exact h.pending.append_right _
      _ = t.time.pending
          ++ (t.repeated (e :: tmps)).map (fun a => ((t'.time.events a).arrive_time_, a)) := by
          rw [hone, hsplit, List.map_append, List.append_assoc]

/-- **The loop over `tmps`**, none of which is pending. -/
theorem Readded.foldl {tmps : List ℕ} (h : t.time.Keyed) (hnodup : tmps.Nodup)
    (hnew : ∀ e ∈ tmps, ¬ t.time.IsPending e) :
    Readded tmps t (tmps.foldl (Timers.readd timeout_) t) := by
  induction tmps generalizing t with
  | nil =>
    refine ⟨h, le_rfl, fun a ha => ?_, fun _ _ => rfl, ?_, rfl⟩
    · cases ha
    · show t.time.pending.Perm (t.time.pending ++ [])
      rw [List.append_nil]
  | cons e tmps ih =>
    obtain ⟨hne, htail⟩ := List.nodup_cons.mp hnodup
    have hround : Readded [e] t (t.readd timeout_ e) :=
      Readded.readd h (hnew e List.mem_cons_self)
    rw [List.foldl_cons]
    refine hround.cons (ih hround.keyed htail fun a ha hp => ?_) hne
    have hpend : a ∈ t.time.pending.map Prod.snd
        ++ ((t.repeated [e]).map fun a => (((t.readd timeout_ e).time.events a).arrive_time_, a)).map
          Prod.snd := by
      rw [← List.map_append]
      exact (hround.pending.map _).subset hp
    rcases List.mem_append.mp hpend with hp | hp
    · exact hnew a (List.mem_cons_of_mem e ha) hp
    · rw [List.map_map] at hp
      obtain ⟨b, hb, rfl⟩ := List.mem_map.mp hp
      rw [List.mem_singleton.mp (List.mem_of_mem_filter hb)] at ha
      exact hne ha

/-! ## `onTime` -/

/-- The pending events whose time has come. -/
def due (t : Timers κ) : List PendingEvent := t.time.due t.now

/-- **What an `onTime` has done before its callbacks run**: it has taken the
events that are due, in the order in which they arrive and were added, and has
left the later ones and the repeated ones, these at new arrival times. -/
structure OnTime (t t' : Timers κ) : Prop where
  ordered : t.due.Pairwise (fun it it' =>
    (t.time.events it.event).arrive_time_ < (t.time.events it'.event).arrive_time_ ∨
      (t.time.events it.event).arrive_time_ = (t.time.events it'.event).arrive_time_ ∧
        it.added < it'.added)
  once : (t.due.map PendingEvent.event).Nodup
  tasks : t'.tasks = t.due.map (fun it =>
    ((t.time.events it.event).arrive_time_, (t.time.events it.event).task_))
  pending : t'.time.pending.Perm
    (t.time.pending.filter (fun x => t.now < (t.time.events x.2).arrive_time_)
      ++ (t.repeated (t.due.map PendingEvent.event)).map
        (fun e => ((t'.time.events e).arrive_time_, e)))
  renewed : ∀ e ∈ t.repeated (t.due.map PendingEvent.event), ∃ clock,
    t.now ≤ millis clock ∧ clock ≤ t'.clock.reading ∧
      t'.time.events e = (t.time.events e).resetArriveTime clock
  others : ∀ e ∉ t.repeated (t.due.map PendingEvent.event), t'.time.events e = t.time.events e
  ran : t'.ran = t.ran

/-- The state in which `onTime` begins to put events off. -/
def taken (t : Timers κ) : Timers κ :=
  { t.advance.advance with time := (t.time.read t.advance.clock.reading).eraseUpTo t.now }

/-- **`onTime` takes, puts off and sets the timer.** -/
theorem onTime_eq (timeout_ : ℤ) (t : Timers κ) : t.onTime timeout_ =
    { (((t.time.tmps t.now).foldl (readd timeout_) t.taken).resetArriveTime timeout_) with
      tasks := t.time.tasks t.now } :=
  rfl

theorem readded_tmps (timeout_ : ℤ) (h : t.time.Keyed) : Readded (t.due.map PendingEvent.event)
    t.taken ((t.time.tmps t.now).foldl (readd timeout_) t.taken) := by
  have htmps : t.time.tmps t.now = t.due.map PendingEvent.event :=
    congrArg (List.map PendingEvent.event) h.collected_eq_due
  have hread : Time.Keyed (t.time.read t.advance.clock.reading) := keyed_timerfd h _
  rw [htmps]
  refine Readded.foldl hread.eraseUpTo h.nodup_due fun e he => ?_
  obtain ⟨it, hit, rfl⟩ := List.mem_map.mp he
  exact hread.not_isPending_of_due hit

theorem keyed_onTime (timeout_ : ℤ) (h : t.time.Keyed) : (t.onTime timeout_).time.Keyed := by
  rw [onTime_eq]
  obtain ⟨timerfd, clock, -, hset⟩ :=
    resetArriveTime_eq timeout_ ((t.time.tmps t.now).foldl (readd timeout_) t.taken)
  rw [hset]
  exact keyed_timerfd (readded_tmps timeout_ h).keyed timerfd

/-- **`onTime` serves what is due.** -/
theorem OnTime.onTime (timeout_ : ℤ) (h : t.time.Keyed) : OnTime t (t.onTime timeout_) := by
  have hloop := readded_tmps timeout_ h
  obtain ⟨timerfd, clock, hclock, hset⟩ :=
    resetArriveTime_eq timeout_ ((t.time.tmps t.now).foldl (readd timeout_) t.taken)
  have heq := onTime_eq timeout_ t
  rw [hset] at heq
  have hleft : t.taken.time.pending
      = t.time.pending.filter (fun x => t.now < (t.time.events x.2).arrive_time_) :=
    Time.Keyed.pending_eraseUpTo (keyed_timerfd h _)
  refine ⟨h.due_ordered, h.nodup_due, ?_, ?_, fun e he => ?_, fun e he => ?_, ?_⟩
  · rw [heq]
    exact congrArg (List.map _) h.collected_eq_due
  · rw [heq, ← hleft]
    exact hloop.pending
  · obtain ⟨read, hlo, hhi, hevent⟩ := hloop.renewed e he
    rw [heq]
    exact ⟨read, millis_mono hlo, hhi.trans hclock, hevent⟩
  · rw [heq]
    exact hloop.others e he
  · rw [heq]
    exact hloop.ran

/-! ## Runs -/

/-- The callbacks among what `onTime` has yet to run. -/
def callbacks (tasks : List (ℤ × Option κ)) : List κ := tasks.filterMap Prod.snd

/-- Any step but `onTime`. -/
def BeforeOnTime (_ : Timers κ) : TimersStep κ → Prop
  | .onTime => False
  | _ => True

theorem keyed_step {l : TimersStep κ} (h : t.time.Keyed) (hs : step timeout_ t l = some t') :
    t'.time.Keyed := by
  cases l with
  | construct e interval is_repeated cb =>
    rw [step] at hs
    split at hs
    · cases hs
    · rename_i hnew
      obtain rfl := Option.some.inj hs
      exact Time.Keyed.onEvent (f := fun _ => TimeEvent.make interval is_repeated cb _) h
        fun hp => absurd hp hnew
  | setCancled e value =>
    obtain rfl := Option.some.inj hs
    exact h.onEvent fun _ => rfl
  | addTimerEvent e =>
    rw [step] at hs
    split at hs
    · cases hs
    · rename_i hnew
      obtain rfl := Option.some.inj hs
      exact keyed_addTimerEvent h hnew
  | deleteTimerEvent e =>
    obtain rfl := Option.some.inj hs
    exact (h.onEvent fun _ => rfl).erase
  | onTime =>
    rw [step] at hs
    split at hs
    · obtain rfl := Option.some.inj hs
      exact keyed_onTime timeout_ h
    · cases hs
  | callback =>
    rw [step] at hs
    split at hs
    · cases hs
    · obtain rfl := Option.some.inj hs
      exact h

theorem ran_addTimerEvent (timeout_ : ℤ) (t : Timers κ) (e : ℕ) :
    (t.addTimerEvent timeout_ e).tasks = t.tasks ∧ (t.addTimerEvent timeout_ e).ran = t.ran := by
  obtain ⟨timerfd, clock, -, hadd⟩ := addTimerEvent_eq timeout_ t e
  rw [hadd]
  exact ⟨rfl, rfl⟩

/-- **No callback is lost or comes in between**, until the next `onTime`. -/
theorem ran_step {l : TimersStep κ} (hl : BeforeOnTime t l) (hs : step timeout_ t l = some t') :
    t'.ran ++ callbacks t'.tasks = t.ran ++ callbacks t.tasks := by
  cases l with
  | construct e interval is_repeated cb =>
    rw [step] at hs
    split at hs
    · cases hs
    · obtain rfl := Option.some.inj hs
      rfl
  | setCancled e value =>
    obtain rfl := Option.some.inj hs
    rfl
  | addTimerEvent e =>
    rw [step] at hs
    split at hs
    · cases hs
    · obtain rfl := Option.some.inj hs
      obtain ⟨htasks, hran⟩ := ran_addTimerEvent timeout_ t e
      rw [htasks, hran]
  | deleteTimerEvent e =>
    obtain rfl := Option.some.inj hs
    rfl
  | onTime => exact hl.elim
  | callback =>
    rw [step] at hs
    split at hs
    case h_1 => cases hs
    case h_2 task tasks htasks =>
      obtain rfl := Option.some.inj hs
      rw [htasks]
      show t.ran ++ task.toList ++ callbacks tasks = t.ran ++ callbacks ((_, task) :: tasks)
      cases task with
      | none => exact congrArg (· ++ callbacks tasks) (List.append_nil t.ran)
      | some cb => exact List.append_assoc t.ran [cb] (callbacks tasks)

theorem ran_run (hrun : Runs (step timeout_) BeforeOnTime t t') :
    t'.ran ++ callbacks t'.tasks = t.ran ++ callbacks t.tasks :=
  hrun.invariant (I := fun s => s.ran ++ callbacks s.tasks = t.ran ++ callbacks t.tasks)
    (fun _ _ _ hsame hl hs => (ran_step hl hs).trans hsame) rfl

/-- **A timer that serves its events**: the keys are the arrival times; an
`onTime` takes the events that are due, its callbacks are run, each once, before
the next `onTime`; and what is deleted is the one event. -/
structure Serves (timeout_ : ℤ) (t : Timers κ) : Prop where
  keys : ∀ x ∈ t.time.pending_events_.entries, x.1 = (t.time.events x.2.event).arrive_time_
  onTime : ∀ t', step timeout_ t .onTime = some t' → OnTime t t' ∧
    ∀ t'', Runs (step timeout_) BeforeOnTime t' t'' → t''.ran ++ callbacks t''.tasks
      = t.ran ++ t.due.filterMap (fun it => (t.time.events it.event).task_)
  deleteTimerEvent : ∀ e t', step timeout_ t (.deleteTimerEvent e) = some t' →
    t'.time.pending = t.time.pending.filter (fun x => x.2 ≠ e)

theorem pending_deleteTimerEvent (h : t.time.Keyed) (e : ℕ) :
    (t.deleteTimerEvent e).time.pending = t.time.pending.filter (fun x => x.2 ≠ e) := by
  have hcancled : (t.time.onEvent e (TimeEvent.setCancled true)).Keyed := h.onEvent fun _ => rfl
  unfold Time.pending
  rw [List.filter_map]
  exact congrArg (List.map _) hcancled.entries_erase

/-- **In every run of the loop**, whatever the clock does and whatever the
callbacks add, the timer serves its events. -/
theorem servesEvents {events : ℕ → TimeEvent κ} {clock : Clock}
    (hrun : Runs (step timeout_) anyStep (init timeout_ events clock) t) : t.Serves timeout_ := by
  have h : t.time.Keyed :=
    hrun.invariant (I := fun t => t.time.Keyed) (fun _ _ _ hkeyed _ hs => keyed_step hkeyed hs)
      (Time.Keyed.make timeout_ events clock.reading)
  refine ⟨h.keys, fun t' hs => ?_, fun e t' hs => ?_⟩
  · rw [step] at hs
    split at hs
    case isFalse => cases hs
    case isTrue =>
      obtain rfl := Option.some.inj hs
      have hserve := OnTime.onTime timeout_ h
      refine ⟨hserve, fun t'' hrun => ?_⟩
      rw [ran_run hrun, hserve.ran, hserve.tasks]
      exact congrArg (t.ran ++ ·) List.filterMap_map
  · obtain rfl := Option.some.inj hs
    exact pending_deleteTimerEvent h e

/-- A repeated event and one that arrives with it, on a clock that goes on by
a millisecond each time; the first callback adds another event. -/
theorem servesEvents_repeated : ∃ t : Timers ℕ, t.Serves 5000 ∧ t.ran = [0, 1] ∧
    t.time.pending = [(9, 0), (16, 2)] := by
  obtain ⟨t, hrun, ht⟩ : ∃ t : Timers ℕ, Runs (step 5000) anyStep
      (init 5000 (fun _ => TimeEvent.make 0 false none 0) ⟨0, fun _ => 1000⟩) t ∧
        decide (t.ran = [0, 1] ∧ t.time.pending = [(9, 0), (16, 2)]) = true :=
    exists_of_execute
      [.construct 0 2 true (some 0), .construct 1 1 false (some 1), .addTimerEvent 0,
        .addTimerEvent 1, .onTime, .callback, .construct 2 4 false none, .addTimerEvent 2,
        .callback]
      (by decide +kernel)
  exact ⟨t, servesEvents hrun, of_decide_eq_true ht⟩

end Timers

end PbRpc
