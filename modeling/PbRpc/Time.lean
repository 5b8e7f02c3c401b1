import Mathlib.Algebra.Order.Ring.Int
import Mathlib.Data.List.Nodup
import PbRpc.Multimap

/-!
# The pending events of a timer

A `Time` keeps the events that are to come in a multimap, under the times at
which they arrive, and has a timer file that wakes its loop. The arrival time
of an event is in the event as well. It is changed there when a repeated event
is put off, and events are found by the copy they carry and not by the key:
`deleteTimerEvent` looks for an event in the range of its own arrival time, and
the decision to set the timer reads the first event and not the first key.

The functions here are what the operations do at one time, with the mutex held
or without: each is one reading of the clock, one system call or one critical
section. `Time.Keyed` says that the two copies agree, that no event is pending
twice, and that events with the same arrival time are in the order in which
they were added.

An entry has a number besides its event, which the code does not have: how many
events were added before it.
-/

namespace PbRpc

/-- The milliseconds that `gettimeofday` gives, of a clock that counts
microseconds. -/
def millis (clock : ℕ) : ℤ := clock / 1000000 * 1000 + clock % 1000000 / 1000

theorem millis_eq (clock : ℕ) : millis clock = clock / 1000 := by
  unfold millis
  omega

theorem millis_mono {clock clock' : ℕ} (h : clock ≤ clock') : millis clock ≤ millis clock' := by
  rw [millis_eq, millis_eq]
  omega

/-- **A timer event**, whose callback is one of `κ`. -/
structure TimeEvent (κ : Type) where
  /-- When it arrives, in milliseconds. -/
  arrive_time_ : ℤ
  /-- How long after that it arrives again, in milliseconds. -/
  interval_ : ℤ
  is_repeated_ : Bool
  is_cancled_ : Bool
  task_ : Option κ
deriving DecidableEq, Repr

namespace TimeEvent

variable {κ : Type}

/-- `TimeEvent::resetArriveTime`: an interval from now. -/
def resetArriveTime (clock : ℕ) (event : TimeEvent κ) : TimeEvent κ :=
  { event with arrive_time_ := millis clock + event.interval_ }

/-- The constructor. -/
def make (interval : ℤ) (is_repeated : Bool) (cb : Option κ) (clock : ℕ) : TimeEvent κ :=
  resetArriveTime clock
    { arrive_time_ := 0
      interval_ := interval
      is_repeated_ := is_repeated
      is_cancled_ := false
      task_ := cb }

def setCancled (value : Bool) (event : TimeEvent κ) : TimeEvent κ :=
  { event with is_cancled_ := value }

end TimeEvent

/-! ## The timer file -/

/-- A time as `timerfd_settime` takes it. -/
structure TimeSpec where
  tv_sec : ℤ
  tv_nsec : ℤ

/-- What the code makes of milliseconds. -/
def TimeSpec.ofMillis (timeval : ℤ) : TimeSpec :=
  { tv_sec := timeval.tdiv 1000
    tv_nsec := timeval.tmod 1000 * 1000000 }

/-- A timer file that was set and not read since it has expired. -/
structure Armed where
  /-- When it expires, in microseconds. -/
  expiry : ℤ
  armedAt : ℕ
deriving DecidableEq, Repr

/-- `timerfd_settime`, with a time from now on. A time of zero disarms the
timer, and one that is no time is an error. -/
def timerfd_settime (clock : ℕ) (timeout : TimeSpec) (timerfd : Option Armed) : Option Armed :=
  if timeout.tv_sec < 0 ∨ timeout.tv_nsec < 0 ∨ 999999999 < timeout.tv_nsec then timerfd
  else if timeout.tv_sec = 0 ∧ timeout.tv_nsec = 0 then none
  else some ⟨clock + timeout.tv_sec * 1000000 + timeout.tv_nsec / 1000, clock⟩

/-- **A time that is not zero is what the timer is set to.** -/
theorem timerfd_settime_of_pos {inteval : ℤ} (h : 0 < inteval) (clock : ℕ)
    (timerfd : Option Armed) :
    timerfd_settime clock (.ofMillis inteval) timerfd = some ⟨clock + 1000 * inteval, clock⟩ := by
  have hdiv : inteval.tdiv 1000 = inteval / 1000 := Int.tdiv_eq_ediv_of_nonneg h.le
  have hmod : inteval.tmod 1000 = inteval % 1000 := Int.tmod_eq_emod_of_nonneg h.le
  unfold timerfd_settime TimeSpec.ofMillis
  simp only [hdiv, hmod]
  rw [if_neg (by omega), if_neg (by omega)]
  congr 2
  omega

/-- `createTimefd`. -/
def createTimefd (timeval : ℤ) (clock : ℕ) : Option Armed :=
  timerfd_settime clock (.ofMillis timeval) none

/-! ## The pending events -/

/-- An entry's event, and how many events were added before. -/
structure PendingEvent where
  event : ℕ
  added : ℕ
deriving DecidableEq, Repr

/-- **A timer** and the events there are. -/
structure Time (κ : Type) where
  events : ℕ → TimeEvent κ
  pending_events_ : Multimap ℤ PendingEvent := .empty
  timerfd : Option Armed
  /-- How many events were added. -/
  added : ℕ := 0

namespace Time

variable {κ : Type}

/-- The constructor, with the configured `timeout_`. -/
def make (timeout_ : ℤ) (events : ℕ → TimeEvent κ) (clock : ℕ) : Time κ where
  events := events
  timerfd := createTimefd timeout_ clock

variable (t : Time κ) (e : ℕ) (clock : ℕ) (now : ℤ)

/-- Something is done to an event. -/
def onEvent (f : TimeEvent κ → TimeEvent κ) : Time κ :=
  { t with events := Function.update t.events e (f (t.events e)) }

/-- The test in `addTimerEvent`: nothing is pending, or the first event arrives
later than this one. -/
def isResetTimerfd : Bool :=
  match t.pending_events_.entries with
  | [] => true
  | it :: _ => decide ((t.events e).arrive_time_ < (t.events it.2.event).arrive_time_)

/-- What `addTimerEvent` puts in. -/
def emplace : Time κ :=
  { t with
    pending_events_ := t.pending_events_.emplace (t.events e).arrive_time_ ⟨e, t.added⟩
    added := t.added + 1 }

/-- What `deleteTimerEvent` erases, from the range of the event's arrival
time. -/
def erase : Time κ :=
  { t with
    pending_events_ := t.pending_events_.eraseIn (t.events e).arrive_time_ (fun it => it.event = e) }

/-- `onTime` reads the timer file, until there is nothing to read. -/
def read : Time κ := { t with timerfd := t.timerfd.filter (fun armed => clock < armed.expiry) }

/-- The entries that `onTime` takes: those before the first whose key is not
past, without the ones that are cancelled. -/
def collected : List PendingEvent :=
  ((t.pending_events_.upTo now).map Prod.snd).filter (fun it => !(t.events it.event).is_cancled_)

/-- The events of these, in `tmps`. -/
def tmps : List ℕ := (t.collected now).map PendingEvent.event

/-- Their arrival times and callbacks, in `tasks`. -/
def tasks : List (ℤ × Option κ) :=
  (t.collected now).map (fun it => ((t.events it.event).arrive_time_, (t.events it.event).task_))

/-- The entries that `onTime` erases. -/
def eraseUpTo : Time κ := { t with pending_events_ := t.pending_events_.eraseUpTo now }

/-- The milliseconds that `resetArriveTime` computes. -/
def inteval (timeout_ arrive now : ℤ) : ℤ := if now < arrive then arrive - now else timeout_

/-- The timer file is set. -/
def settime (inteval : ℤ) : Time κ :=
  { t with timerfd := timerfd_settime clock (.ofMillis inteval) t.timerfd }

/-! ## What the entries are -/

/-- The entries without their numbers. -/
def pending : List (ℤ × ℕ) := t.pending_events_.entries.map (fun x => (x.1, x.2.event))

/-- An event is pending. -/
def IsPending : Prop := e ∈ t.pending.map Prod.snd

instance : Decidable (t.IsPending e) := inferInstanceAs (Decidable (e ∈ t.pending.map Prod.snd))

/-- **The pending events that arrive by a time** and are not cancelled. -/
def due : List PendingEvent :=
  (t.pending_events_.entries.map Prod.snd).filter (fun it =>
    (t.events it.event).arrive_time_ ≤ now && !(t.events it.event).is_cancled_)

/-- The order of keys, and of numbers where keys are the same. -/
def Before (x y : ℤ × PendingEvent) : Prop :=
  x.1 < y.1 ∨ x.1 = y.1 ∧ x.2.added < y.2.added

/-- **The keys are the arrival times**, no event is there twice, and entries
with the same key are in the order in which they came. -/
structure Keyed : Prop where
  keys : ∀ x ∈ t.pending_events_.entries, x.1 = (t.events x.2.event).arrive_time_
  nodup : (t.pending_events_.entries.map (fun x => x.2.event)).Nodup
  ordered : t.pending_events_.entries.Pairwise Before
  numbered : ∀ x ∈ t.pending_events_.entries, x.2.added < t.added

variable {t e clock now}

theorem map_pending : t.pending.map Prod.snd
    = t.pending_events_.entries.map (fun x => x.2.event) := by
  rw [pending, List.map_map]
  rfl

theorem isPending_of_mem {x : ℤ × PendingEvent} (h : x ∈ t.pending_events_.entries) :
    t.IsPending x.2.event := by
  rw [IsPending, map_pending]
  exact List.mem_map_of_mem h

/-- What is done to an event leaves the arrival times of what is pending, if it
leaves its arrival time or it is not pending. -/
theorem arrive_onEvent {f : TimeEvent κ → TimeEvent κ}
    (hf : t.IsPending e → (f (t.events e)).arrive_time_ = (t.events e).arrive_time_)
    {x : ℤ × PendingEvent} (hx : x ∈ t.pending_events_.entries) :
    ((t.onEvent e f).events x.2.event).arrive_time_ = (t.events x.2.event).arrive_time_ := by
  show (Function.update t.events e (f (t.events e)) x.2.event).arrive_time_ = _
  by_cases hxe : x.2.event = e
  · rw [hxe, Function.update_self]
    exact hf (hxe ▸ isPending_of_mem hx)
  · rw [Function.update_of_ne hxe]

theorem pending_emplace :
    (t.emplace e).pending.Perm (((t.events e).arrive_time_, e) :: t.pending) :=
  (t.pending_events_.perm_emplace _ _).map _

namespace Keyed

theorem make (timeout_ : ℤ) (events : ℕ → TimeEvent κ) (clock : ℕ) :
    (Time.make timeout_ events clock).Keyed where
  keys := by
    intro x hx
    cases hx
  nodup := List.nodup_nil
  ordered := List.Pairwise.nil
  numbered := by
    intro x hx
    cases hx

/-- **An event that is not pending may change**, and any event in what is not
its arrival time. -/
theorem onEvent {f : TimeEvent κ → TimeEvent κ} (h : t.Keyed)
    (hf : t.IsPending e → (f (t.events e)).arrive_time_ = (t.events e).arrive_time_) :
    (t.onEvent e f).Keyed where
  keys x hx := (h.keys x hx).trans (arrive_onEvent hf hx).symm
  nodup := h.nodup
  ordered := h.ordered
  numbered := h.numbered

/-- **An event that is not pending may be added.** -/
theorem emplace (h : t.Keyed) (hnew : ¬ t.IsPending e) : (t.emplace e).Keyed where
  keys := by
    intro x hx
    rcases (t.pending_events_.mem_emplace _ _).mp hx with rfl | hx
    · rfl
    · exact h.keys x hx
  nodup := by
    refine (((t.pending_events_.perm_emplace _ _).map _).nodup_iff).mpr ?_
    refine List.nodup_cons.mpr ⟨?_, h.nodup⟩
    rwa [← map_pending]
  ordered := by
    refine t.pending_events_.pairwise_emplace _ _ h.ordered (fun x hx hle => ?_)
      (fun x hx hlt => Or.inl hlt)
    rcases hle.lt_or_eq with hlt | heq
    · exact Or.inl hlt
    · exact Or.inr ⟨heq, h.numbered x hx⟩
  numbered := by
    intro x hx
    rcases (t.pending_events_.mem_emplace _ _).mp hx with rfl | hx
    · exact Nat.lt_succ_self t.added
    · exact (h.numbered x hx).trans (Nat.lt_succ_self t.added)

/-- **Fewer entries** are in order as well. -/
theorem sublist {m : Multimap ℤ PendingEvent} (h : t.Keyed)
    (hm : m.entries.Sublist t.pending_events_.entries) :
    Keyed { t with pending_events_ := m } where
  keys x hx := h.keys x (hm.subset hx)
  nodup := h.nodup.sublist (hm.map _)
  ordered := h.ordered.sublist hm
  numbered x hx := h.numbered x (hm.subset hx)

/-- **What is erased is the event**, and nothing else. -/
theorem entries_erase (h : t.Keyed) :
    (t.erase e).pending_events_.entries
      = t.pending_events_.entries.filter (fun x => x.2.event ≠ e) := by
  have hrange : ∀ x ∈ t.pending_events_.entries,
      (decide (x.1 = (t.events e).arrive_time_) && decide (x.2.event = e))
        = decide (x.2.event = e) := by
    intro x hx
    rw [← Bool.decide_and]
    refine decide_eq_decide.mpr ⟨And.right, fun hxe => ⟨?_, hxe⟩⟩
    rw [h.keys x hx, hxe]
  have honce : t.pending_events_.entries.Pairwise
      (fun x y => decide (x.2.event = e) = true → ¬ decide (y.2.event = e) = true) := by
    refine (List.pairwise_map.mp h.nodup).imp fun hne hx hy => hne ?_
    rw [of_decide_eq_true hx, of_decide_eq_true hy]
  calc (t.erase e).pending_events_.entries
      = t.pending_events_.entries.eraseP (fun x => decide (x.2.event = e)) :=
        (t.pending_events_.entries_eraseIn _ _).trans (Multimap.eraseP_congr hrange)
    _ = t.pending_events_.entries.filter (fun x => !decide (x.2.event = e)) :=
        Multimap.eraseP_eq_filter honce
    _ = t.pending_events_.entries.filter (fun x => x.2.event ≠ e) :=
        List.filter_congr fun x _ => decide_not.symm

theorem erase (h : t.Keyed) : (t.erase e).Keyed :=
  h.sublist (h.entries_erase ▸ List.filter_sublist)

theorem eraseUpTo (h : t.Keyed) : (t.eraseUpTo now).Keyed :=
  h.sublist (List.dropWhile_sublist _)

/-! ## What `onTime` takes -/

/-- **The entries that `onTime` takes** are those of the events that have
arrived. -/
theorem collected_eq_due (h : t.Keyed) : t.collected now = t.due now := by
  unfold collected due
  rw [Multimap.upTo_eq_filter, List.filter_map, List.filter_map, List.filter_filter]
  refine congrArg (List.map Prod.snd) (List.filter_congr fun x hx => ?_)
  show (!(t.events x.2.event).is_cancled_ && decide (x.1 ≤ now))
    = (decide ((t.events x.2.event).arrive_time_ ≤ now) && !(t.events x.2.event).is_cancled_)
  rw [h.keys x hx, Bool.and_comm]

/-- They are in the order of their arrival times, and of their numbers. -/
theorem due_ordered (h : t.Keyed) : (t.due now).Pairwise (fun it it' =>
    (t.events it.event).arrive_time_ < (t.events it'.event).arrive_time_ ∨
      (t.events it.event).arrive_time_ = (t.events it'.event).arrive_time_ ∧
        it.added < it'.added) := by
  refine (List.pairwise_map.mpr ?_).sublist List.filter_sublist
  refine h.ordered.imp_of_mem fun {x y} hx hy hxy => ?_
  rwa [← h.keys x hx, ← h.keys y hy]

/-- And none of them is there twice. -/
theorem nodup_due (h : t.Keyed) : ((t.due now).map PendingEvent.event).Nodup := by
  refine List.Nodup.sublist (List.filter_sublist.map _) ?_
  rw [List.map_map]
  exact h.nodup

theorem pending_eraseUpTo (h : t.Keyed) : (t.eraseUpTo now).pending
    = t.pending.filter (fun x => now < (t.events x.2).arrive_time_) := by
  show (t.pending_events_.beyond now).map _ = _
  rw [Multimap.beyond_eq_filter]
  unfold pending
  rw [List.filter_map]
  refine congrArg _ (List.filter_congr fun x hx => ?_)
  rw [h.keys x hx]
  rfl

theorem not_isPending_of_due (h : t.Keyed) {it : PendingEvent} (hit : it ∈ t.due now) :
    ¬ (t.eraseUpTo now).IsPending it.event := by
  intro hp
  rw [IsPending, h.pending_eraseUpTo] at hp
  obtain ⟨x, hx, hevent⟩ := List.mem_map.mp hp
  have hlater := of_decide_eq_true (List.mem_filter.mp hx).2
  have hpast := of_decide_eq_true (Bool.and_eq_true_iff.mp (List.mem_filter.mp hit).2).1
  rw [hevent] at hlater
  exact hlater.not_ge hpast

end Keyed

end Time

end PbRpc
