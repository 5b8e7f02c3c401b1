import PbRpc.Transition
import Mathlib.Data.List.Nodup
import Mathlib.Algebra.BigOperators.Group.Finset.Piecewise

/-!
# Threads that take locks

Of each thread only its script is kept: the locks that it takes and gives
back, in order. A thread that is to take a lock which is not free waits.
Locks are taken for a scope, so that the lock taken last is given back
first; what a thread holds can be read off the rest of its script (`held`).

Threads are stuck for ever when each waits for a lock that another of them
holds. That no lock is ever taken in two orders is enough to rule this out,
but it is not needed. What is ranked here are the waits, and a wait is a
thread together with the lock that it waits for: the holder of the lock must
itself wait in a lower rank, if it waits at all. Then every chain of waits
ends at a thread that goes on (`wait_ends`), and any run can be continued
until all of the scripts are at their ends (`completes`).
-/

namespace LockOrder

open Transition

variable {T L : Type*}

/-! ## Scripts -/

/-- **What a thread does with locks.** -/
inductive Op (L : Type*) where
  | acquire (l : L)
  | release (l : L)

/-- **The locks that are held in front of the rest of a script**, the one
taken last first. -/
def held : List (Op L) → List L
  | [] => []
  | .acquire _ :: ops => (held ops).tail
  | .release l :: ops => l :: held ops

/-- A lock that is held while something is done. -/
def holding (l : L) (body : List (Op L)) : List (Op L) := .acquire l :: (body ++ [.release l])

/-- **A script that takes its locks as allowed**: `P l H` says that `l` may be
taken while the locks `H` are held. No lock is taken twice. -/
def Ordered (P : L → List L → Prop) : List (Op L) → Prop
  | [] => True
  | .acquire l :: ops => (held ops = l :: held (.acquire l :: ops) ∧ l ∉ held (.acquire l :: ops) ∧
      P l (held (.acquire l :: ops))) ∧ Ordered P ops
  | .release _ :: ops => Ordered P ops

/-- **Something that is done while the locks `H` are held**, and that leaves
them so. -/
def Keeps (P : L → List L → Prop) (H : List L) (body : List (Op L)) : Prop :=
  ∀ ops, held ops = H → Ordered P ops → held (body ++ ops) = H ∧ Ordered P (body ++ ops)

namespace Keeps

variable {P : L → List L → Prop} {H : List L} {l : L} {body body' : List (Op L)}

theorem nil : Keeps P H [] := fun _ hH hP => ⟨hH, hP⟩

theorem append (h : Keeps P H body) (h' : Keeps P H body') : Keeps P H (body ++ body') := by
  intro ops hH hP
  obtain ⟨hH', hP'⟩ := h' ops hH hP
  rw [List.append_assoc]
  exact h _ hH' hP'

theorem flatMap {α : Type*} {f : α → List (Op L)} {as : List α} (h : ∀ a ∈ as, Keeps P H (f a)) :
    Keeps P H (as.flatMap f) := by
  induction as with
  | nil => exact nil
  | cons a as ih =>
    rw [List.flatMap_cons]
    exact (h a (List.mem_cons_self ..)).append (ih fun a ha => h a (List.mem_cons_of_mem _ ha))

/-- **A scope**, where its lock may be taken and is not held already. -/
theorem holding (hl : l ∉ H) (hP : P l H) (h : Keeps P (l :: H) body) :
    Keeps P H (holding l body) := by
  intro ops hH hops
  obtain ⟨hheld, hordered⟩ := h (.release l :: ops) (congrArg (l :: ·) hH) hops
  have hfront : held (.acquire l :: (body ++ .release l :: ops)) = H := by
    rw [held, hheld, List.tail_cons]
  show held (.acquire l :: (body ++ [.release l] ++ ops)) = H ∧
    Ordered P (.acquire l :: (body ++ [.release l] ++ ops))
  rw [List.append_assoc, List.singleton_append]
  refine ⟨hfront, ⟨?_, ?_, ?_⟩, hordered⟩
  · rw [hfront, hheld]
  · rwa [hfront]
  · rwa [hfront]

/-- A whole script. -/
theorem whole (h : Keeps P [] body) : held body = [] ∧ Ordered P body := by
  have hbody := h [] rfl trivial
  rwa [List.append_nil] at hbody

end Keeps

/-! ## Threads and locks -/

/-- **The threads**, each with the rest of its script, and the locks. -/
structure System (T L : Type*) where
  rest : T → List (Op L)
  owner : L → Option T

/-- The threads before their first step. -/
def start (script : T → List (Op L)) : System T L where
  rest := script
  owner := fun _ => none

/-- **The invariant**: each thread owns what its script says that it holds,
and takes the rest of its locks as allowed. -/
structure Inv (P : T → L → List L → Prop) (s : System T L) : Prop where
  ordered : ∀ t, Ordered (P t) (s.rest t)
  nodup : ∀ t, (held (s.rest t)).Nodup
  owner : ∀ l t, s.owner l = some t ↔ l ∈ held (s.rest t)

namespace Inv

variable {P : T → L → List L → Prop} {s : System T L}

theorem start {script : T → List (Op L)} (h : ∀ t, Keeps (P t) [] (script t)) :
    Inv P (start script) where
  ordered t := (h t).whole.2
  nodup t := by
    show (held (script t)).Nodup
    rw [(h t).whole.1]
    exact List.nodup_nil
  owner l t := by
    show none = some t ↔ l ∈ held (script t)
    rw [(h t).whole.1]
    simp

/-- A lock that is free is held by nobody. -/
theorem not_mem_of_free (h : Inv P s) {l : L} (hfree : s.owner l = none) (t : T) :
    l ∉ held (s.rest t) := by
  intro hmem
  rw [← h.owner l t, hfree] at hmem
  cases hmem

end Inv

variable [DecidableEq T] [DecidableEq L]

/-- **What a thread does next.** It does nothing while the lock that it is to
take is not free. -/
def System.step (s : System T L) (t : T) : Option (System T L) :=
  match s.rest t with
  | [] => none
  | .acquire l :: ops =>
    if s.owner l = none then
      some { rest := Function.update s.rest t ops, owner := Function.update s.owner l (some t) }
    else none
  | .release l :: ops =>
    some { rest := Function.update s.rest t ops, owner := Function.update s.owner l none }

/-- **A thread that waits for another**: it is to take a lock that the other
holds. -/
def WaitsFor (s : System T L) (t u : T) : Prop :=
  ∃ l ops, s.rest t = .acquire l :: ops ∧ s.owner l = some u

variable {s s' : System T L} {t u : T}

theorem step_acquire {l : L} {ops : List (Op L)} (h : s.rest t = .acquire l :: ops)
    (hfree : s.owner l = none) :
    s.step t = some
      { rest := Function.update s.rest t ops, owner := Function.update s.owner l (some t) } := by
  rw [System.step, h]
  exact if_pos hfree

theorem step_release {l : L} {ops : List (Op L)} (h : s.rest t = .release l :: ops) :
    s.step t = some
      { rest := Function.update s.rest t ops, owner := Function.update s.owner l none } := by
  rw [System.step, h]

/-- **The steps**, one by one. -/
theorem step_cases (h : s.step t = some s') :
    (∃ l ops, s.rest t = .acquire l :: ops ∧ s.owner l = none ∧
      s' = { rest := Function.update s.rest t ops, owner := Function.update s.owner l (some t) }) ∨
    ∃ l ops, s.rest t = .release l :: ops ∧
      s' = { rest := Function.update s.rest t ops, owner := Function.update s.owner l none } := by
  cases hrest : s.rest t with
  | nil =>
    rw [System.step, hrest] at h
    cases h
  | cons op ops =>
    cases op with
    | acquire l =>
      by_cases hfree : s.owner l = none
      · rw [step_acquire hrest hfree] at h
        exact .inl ⟨l, ops, rfl, hfree, (Option.some.inj h).symm⟩
      · rw [System.step, hrest] at h
        exact nomatch (if_neg hfree).symm.trans h
    | release l =>
      rw [step_release hrest] at h
      exact .inr ⟨l, ops, rfl, (Option.some.inj h).symm⟩

namespace Inv

variable {P : T → L → List L → Prop}

theorem acquire (h : Inv P s) {l : L} {ops : List (Op L)} (hrest : s.rest t = .acquire l :: ops)
    (hfree : s.owner l = none) :
    Inv P { rest := Function.update s.rest t ops,
            owner := Function.update s.owner l (some t) } := by
  have hordered := h.ordered t
  have hnodup := h.nodup t
  rw [hrest] at hordered hnodup
  obtain ⟨⟨hheld, hnew, -⟩, hops⟩ := hordered
  refine ⟨fun u => ?_, fun u => ?_, fun k u => ?_⟩
  · by_cases hu : u = t
    · subst hu
      simpa using hops
    · simpa [hu] using h.ordered u
  · by_cases hu : u = t
    · subst hu
      simp only [Function.update_self]
      rw [hheld]
      exact List.nodup_cons.mpr ⟨hnew, hnodup⟩
    · simpa [hu] using h.nodup u
  · have hold := h.owner k u
    by_cases hu : u = t
    · subst hu
      rw [hrest] at hold
      simp only [Function.update_self]
      rw [hheld, List.mem_cons, ← hold]
      by_cases hk : k = l
      · simp [hk]
      · simp [hk]
    · by_cases hk : k = l
      · subst hk
        simpa [hu, Ne.symm hu] using h.not_mem_of_free hfree u
      · simpa [hu, hk] using hold

theorem release (h : Inv P s) {l : L} {ops : List (Op L)}
    (hrest : s.rest t = .release l :: ops) :
    Inv P { rest := Function.update s.rest t ops, owner := Function.update s.owner l none } := by
  have hordered := h.ordered t
  have hnodup := h.nodup t
  have hmine := h.owner l
  rw [hrest] at hordered hnodup
  replace hordered : Ordered (P t) ops := hordered
  obtain ⟨hnew, hops⟩ := List.nodup_cons.mp hnodup
  refine ⟨fun u => ?_, fun u => ?_, fun k u => ?_⟩
  · by_cases hu : u = t
    · subst hu
      simpa using hordered
    · simpa [hu] using h.ordered u
  · by_cases hu : u = t
    · subst hu
      simpa using hops
    · simpa [hu] using h.nodup u
  · have hold := h.owner k u
    by_cases hk : k = l
    · subst hk
      by_cases hu : u = t
      · subst hu
        simpa using hnew
      · -- the lock was held by the thread that gives it back
        have hown : s.owner k = some t := (hmine t).mpr (by rw [hrest]; exact List.mem_cons_self ..)
        rw [hown] at hold
        simpa [hu] using fun hmem => hu (Option.some.inj (hold.mpr hmem)).symm
    · by_cases hu : u = t
      · subst hu
        rw [hrest, held, List.mem_cons] at hold
        simpa [hk] using hold
      · simpa [hu, hk] using hold

theorem step (h : Inv P s) (hs : s.step t = some s') : Inv P s' := by
  rcases step_cases hs with ⟨l, ops, hrest, hfree, rfl⟩ | ⟨l, ops, hrest, rfl⟩
  · exact h.acquire hrest hfree
  · exact h.release hrest

end Inv

/-! ## No thread is stuck -/

section Rank

variable {P : T → L → List L → Prop} (rank : T → L → ℕ)

/-- **The waits are ranked**: whoever holds a lock that another waits for
waits in a lower rank, if at all. -/
def Ranked (P : T → L → List L → Prop) (rank : T → L → ℕ) : Prop :=
  ∀ t u l l' H H', t ≠ u → P t l H → P u l' H' → l ∈ H' → rank u l' < rank t l

variable {rank}

/-- **Every chain of waits ends** at a thread that goes on. -/
theorem wait_ends (hrank : Ranked P rank) (h : Inv P s) (hmore : s.rest t ≠ []) :
    ∃ u, Relation.ReflTransGen (WaitsFor s) t u ∧ (s.step u).isSome := by
  obtain ⟨op, ops, hrest⟩ := List.exists_cons_of_ne_nil hmore
  cases op with
  | release l => exact ⟨t, .refl, by rw [step_release hrest]; rfl⟩
  | acquire l =>
    -- the induction is on the rank of the wait
    induction hr : rank t l using Nat.strongRecOn generalizing t l ops with
    | _ r ih =>
      cases hown : s.owner l with
      | none => exact ⟨t, .refl, by rw [step_acquire hrest hown]; rfl⟩
      | some u =>
        have hwaits : WaitsFor s t u := ⟨l, ops, hrest, hown⟩
        have hheld := (h.owner l u).mp hown
        have ht := h.ordered t
        rw [hrest] at ht
        obtain ⟨⟨-, hnew, hP⟩, -⟩ := ht
        have htu : t ≠ u := by
          rintro rfl
          rw [hrest] at hheld
          exact hnew hheld
        have hu : s.rest u ≠ [] := by
          intro hnil
          rw [hnil] at hheld
          cases hheld
        obtain ⟨op', ops', hrest'⟩ := List.exists_cons_of_ne_nil hu
        cases op' with
        | release l' =>
          exact ⟨u, .single hwaits, by rw [step_release hrest']; rfl⟩
        | acquire l' =>
          have hordered := h.ordered u
          rw [hrest'] at hordered hheld
          have hlower : rank u l' < r := by
            rw [← hr]
            exact hrank t u l l' _ _ htu hP hordered.1.2.2 hheld
          obtain ⟨v, hchain, hv⟩ := ih _ hlower hu ops' l' hrest' rfl
          exact ⟨v, .head hwaits hchain, hv⟩

/-- A script that is done stays done. -/
theorem rest_eq_nil_step (hnil : s.rest t = []) (h : s.step u = some s') : s'.rest t = [] := by
  have hne : ∀ {op ops}, s.rest u = op :: ops → t ≠ u := by
    rintro op ops hrest rfl
    exact nomatch hnil.symm.trans hrest
  rcases step_cases h with ⟨l, ops, hrest, -, rfl⟩ | ⟨l, ops, hrest, rfl⟩
  · simpa [hne hrest] using hnil
  · simpa [hne hrest] using hnil

/-- The steps that some threads have left. -/
def stepsLeft (ts : Finset T) (s : System T L) : ℕ := ∑ t ∈ ts, (s.rest t).length

theorem stepsLeft_step {ts : Finset T} (ht : t ∈ ts) (h : s.step t = some s') :
    stepsLeft ts s' + 1 = stepsLeft ts s := by
  have hsum : ∀ op ops, s.rest t = op :: ops →
      ∑ u ∈ ts, (Function.update s.rest t ops u).length + 1 = stepsLeft ts s := by
    intro op ops hrest
    have hlen : ∀ u, (Function.update s.rest t ops u).length
        = Function.update (fun u => (s.rest u).length) t ops.length u :=
      fun u => Function.apply_update (fun _ => List.length) s.rest t ops u
    rw [stepsLeft, Finset.sum_congr rfl fun u _ => hlen u, Finset.sum_update_of_mem ht,
      ← Finset.add_sum_erase ts (fun u => (s.rest u).length) ht, hrest, List.length_cons,
      Finset.sdiff_singleton_eq_erase]
    omega
  rcases step_cases h with ⟨l, ops, hrest, -, rfl⟩ | ⟨l, ops, hrest, rfl⟩
  · exact hsum _ ops hrest
  · exact hsum _ ops hrest

/-- **Every run can be continued** until all of the scripts are done. -/
theorem completes {ts : Finset T} (hrank : Ranked P rank) (h : Inv P s)
    (hts : ∀ t ∉ ts, s.rest t = []) :
    ∃ s', Runs System.step anyStep s s' ∧ ∀ t, s'.rest t = [] := by
  induction hn : stepsLeft ts s generalizing s with
  | zero =>
    refine ⟨s, Runs.refl s, fun t => ?_⟩
    by_cases ht : t ∈ ts
    · exact List.length_eq_zero_iff.mp ((Finset.sum_eq_zero_iff.mp hn) t ht)
    · exact hts t ht
  | succ n ih =>
    obtain ⟨t, ht⟩ : ∃ t, s.rest t ≠ [] := by
      by_contra hall
      have hzero : stepsLeft ts s = 0 := Finset.sum_eq_zero fun t _ =>
        List.length_eq_zero_iff.mpr (not_not.mp (not_exists.mp hall t))
      omega
    obtain ⟨u, -, hu⟩ := wait_ends hrank h ht
    obtain ⟨s₁, hs₁⟩ := Option.isSome_iff_exists.mp hu
    have hmem : u ∈ ts := by
      by_contra hu
      rw [System.step, hts u hu] at hs₁
      cases hs₁
    have hleft := stepsLeft_step hmem hs₁
    obtain ⟨s', hruns, hdone⟩ := ih (h.step hs₁) (fun t ht => rest_eq_nil_step (hts t ht) hs₁)
      (by omega)
    exact ⟨s', ((Runs.refl s).tail trivial hs₁).trans hruns, hdone⟩

end Rank

end LockOrder
