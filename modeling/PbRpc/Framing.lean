import Mathlib.Data.List.Basic

/-!
# Streams of frames

A sender writes messages one after another, each as a *frame*, and a
receiver finds the frames again in a stream that may hold other bytes
between them. What makes this possible without an escape mechanism is that
no byte of the noise is the byte a frame begins with. `Spells` says that a
stream is such a mixture, and which messages it carries.

The receiver sees the stream in pieces. `feed` runs a receiver over a list
of chunks, and `feed_delivers` reduces what it delivers over all of them to
a law about one: if a state that awaits certain messages from the bytes
still to come gives out some of them at each chunk and goes on awaiting the
others, then however the stream is cut everything arrives once, in order.
-/

namespace Framing

variable {β M σ ν ε : Type*}

/-- **A stream spells a list of messages**: it consists of their frames, in
order, and of bytes other than `start` between them. -/
inductive Spells (start : β) (frame : M → List β) : List M → List β → Prop
  | nil : Spells start frame [] []
  | noise {ms : List M} {bs : List β} {b : β} (hb : b ≠ start)
      (h : Spells start frame ms bs) : Spells start frame ms (b :: bs)
  | frame {m : M} {ms : List M} {bs : List β} (h : Spells start frame ms bs) :
      Spells start frame (m :: ms) (frame m ++ bs)

namespace Spells

variable {start : β} {frame : M → List β} {ms ms' : List M} {bs bs' : List β}

/-- Noise in front changes nothing. -/
theorem noises {noise : List β} (hn : ∀ x ∈ noise, x ≠ start)
    (h : Spells start frame ms bs) : Spells start frame ms (noise ++ bs) := by
  induction noise with
  | nil => exact h
  | cons x xs ih =>
    exact .noise (hn x (List.mem_cons_self ..))
      (ih (fun y hy => hn y (List.mem_cons_of_mem x hy)))

/-- Streams concatenate, and so do the messages. -/
theorem append (h : Spells start frame ms bs) (h' : Spells start frame ms' bs') :
    Spells start frame (ms ++ ms') (bs ++ bs') := by
  induction h with
  | nil => exact h'
  | noise hb _ ih => exact .noise hb ih
  | frame _ ih =>
    rw [List.append_assoc]
    exact .frame ih

/-- The frames of a list of messages, with nothing between them, spell
it. -/
theorem flatMap (ms : List M) : Spells start frame ms (ms.flatMap frame) := by
  induction ms with
  | nil => exact .nil
  | cons m ms ih => exact .frame ih

/-- **What a receiver finds first**: noise, and then either the end of the
stream or the frame of the first message. -/
theorem split (h : Spells start frame ms bs) :
    ∃ noise rest, bs = noise ++ rest ∧ (∀ x ∈ noise, x ≠ start)
      ∧ (rest = [] ∧ ms = []
        ∨ ∃ m ms' tail, ms = m :: ms' ∧ rest = frame m ++ tail
          ∧ Spells start frame ms' tail) := by
  induction h with
  | nil => exact ⟨[], [], rfl, by simp, Or.inl ⟨rfl, rfl⟩⟩
  | @noise ms bs b hb _ ih =>
    obtain ⟨noise, rest, rfl, hn, hr⟩ := ih
    refine ⟨b :: noise, rest, rfl, ?_, hr⟩
    intro x hx
    rcases List.mem_cons.mp hx with rfl | hx
    · exact hb
    · exact hn x hx
  | @frame m ms bs h _ =>
    exact ⟨[], frame m ++ bs, rfl, by simp, Or.inr ⟨m, ms, bs, rfl, rfl, h⟩⟩

/-- An empty stream carries nothing. -/
theorem eq_nil (hf : ∀ m, frame m ≠ []) (h : Spells start frame ms []) : ms = [] := by
  generalize hbs : ([] : List β) = bs at h
  cases h with
  | nil => rfl
  | noise hb h => cases hbs
  | frame h => exact absurd (List.append_eq_nil_iff.mp hbs.symm).1 (hf _)

end Spells

/-- A receiver run over a list of chunks: what it gives out at each, and the
state it is left in. -/
def feed (step : σ → List β → Except ε (List ν × σ)) :
    σ → List (List β) → Except ε (List ν × σ)
  | s, [] => .ok ([], s)
  | s, c :: cs =>
    match step s c with
    | .error e => .error e
    | .ok (out, s) =>
      match feed step s cs with
      | .error e => .error e
      | .ok (out', s) => .ok (out ++ out', s)

/-- **Delivery does not depend on the chunks.** `Awaits s ms fut` says that
from `s` the messages `ms` are still to be given out, the bytes `fut` being
still to come. -/
theorem feed_delivers {step : σ → List β → Except ε (List ν × σ)} (deliver : M → ν)
    (Awaits : σ → List M → List β → Prop)
    (hstep : ∀ s c ms fut, Awaits s ms (c ++ fut) →
      ∃ out ms' s', step s c = .ok (out.map deliver, s') ∧ ms = out ++ ms'
        ∧ Awaits s' ms' fut)
    (cs : List (List β)) {s : σ} {ms : List M} (h : Awaits s ms cs.flatten) :
    ∃ out ms' s', feed step s cs = .ok (out.map deliver, s') ∧ ms = out ++ ms'
      ∧ Awaits s' ms' [] := by
  induction cs generalizing s ms with
  | nil => exact ⟨[], ms, s, rfl, rfl, h⟩
  | cons c cs ih =>
    obtain ⟨out, ms₁, s₁, hs, rfl, h₁⟩ := hstep s c ms cs.flatten h
    obtain ⟨out', ms₂, s₂, hf, rfl, h₂⟩ := ih h₁
    refine ⟨out ++ out', ms₂, s₂, ?_, (List.append_assoc ..).symm, h₂⟩
    simp only [feed, hs, hf, List.map_append]

end Framing
