import Mathlib.Data.List.Induction
import Mathlib.Data.List.Nodup

/-!
# A stream of entries

Entries that each have a name are put one after another into a stream, and
the stream is written out from its front. An entry is *written* when the
stream is written up to the end of it, which takes more than a look at the
entry: whatever is before it has to be written as well.

When the whole stream is written, so is every entry
(`written_of_prefix`). Conversely the stream is written when all entries are
that spell anything (`prefix_of_written`); an entry that spells nothing may
come last and be named nowhere.
-/

namespace EntryStream

variable {ι β α : Type*} {spell : β → List α}

/-- **The stream** of some entries. -/
def stream (spell : β → List α) (entries : List (ι × β)) : List α :=
  entries.flatMap (fun entry => spell entry.2)

/-- **An entry is written**: the stream is, up to its end. -/
def Written (spell : β → List α) (entries : List (ι × β)) (out : List α) (i : ι) : Prop :=
  ∃ front b back, entries = front ++ (i, b) :: back ∧ stream spell (front ++ [(i, b)]) <+: out

variable {entries entries' : List (ι × β)} {out : List α} {i : ι}

theorem stream_append :
    stream spell (entries ++ entries') = stream spell entries ++ stream spell entries' := by
  unfold stream
  exact List.flatMap_append

theorem Written.mem (h : Written spell entries out i) : i ∈ entries.map Prod.fst := by
  obtain ⟨front, b, back, rfl, -⟩ := h
  simp

/-- All that is in a stream that is written. -/
theorem written_of_prefix (h : stream spell entries <+: out) (hi : i ∈ entries.map Prod.fst) :
    Written spell entries out i := by
  obtain ⟨⟨j, b⟩, hmem, rfl⟩ := List.mem_map.mp hi
  obtain ⟨front, back, hsplit⟩ := List.append_of_mem hmem
  refine ⟨front, b, back, hsplit, List.IsPrefix.trans ?_ h⟩
  have happend : stream spell entries = stream spell (front ++ [(j, b)]) ++ stream spell back := by
    rw [← stream_append, hsplit]
    simp
  rw [happend]
  exact List.prefix_append _ _

/-- A named entry stands in one place only. -/
theorem split_unique {front front' back back' : List (ι × β)} {b b' : β}
    (hnodup : ((front ++ (i, b) :: back).map Prod.fst).Nodup)
    (h : front ++ (i, b) :: back = front' ++ (i, b') :: back') :
    front = front' ∧ (i, b) = (i, b') ∧ back = back' := by
  rw [List.map_append, List.map_cons] at hnodup
  have hnot : i ∉ front.map Prod.fst ++ back.map Prod.fst :=
    (List.nodup_cons.mp (List.nodup_middle.mp hnodup)).1
  refine (List.append_cons_inj_of_notMem ?_ ?_).mp h
  · exact fun hmem => hnot (List.mem_append_left _ (List.mem_map_of_mem hmem))
  · exact fun hmem => hnot (List.mem_append_right _ (List.mem_map_of_mem hmem))

/-- **The stream is written** once the entries are that spell anything. -/
theorem prefix_of_written (hnodup : (entries.map Prod.fst).Nodup)
    (h : ∀ i b, (i, b) ∈ entries → spell b ≠ [] → Written spell entries out i) :
    stream spell entries <+: out := by
  -- entries that spell nothing are taken off the end
  have hfront : ∀ front back, entries = front ++ back → stream spell back = [] →
      stream spell front <+: out := by
    intro front
    induction front using List.reverseRecOn with
    | nil => exact fun _ _ _ => List.nil_prefix
    | append_singleton front entry ih =>
      obtain ⟨i, b⟩ := entry
      intro back hsplit hback
      have hsplit' : entries = front ++ (i, b) :: back := by rw [hsplit]; simp
      by_cases hspell : spell b = []
      · have hnone : stream spell [(i, b)] = [] := by simp [stream, hspell]
        rw [stream_append, hnone, List.append_nil]
        refine ih ((i, b) :: back) hsplit' ?_
        rw [show (i, b) :: back = [(i, b)] ++ back from rfl, stream_append, hnone, hback]
        rfl
      · have hmem : (i, b) ∈ entries := by rw [hsplit']; simp
        obtain ⟨front', b', back', heq, hprefix⟩ := h i b hmem hspell
        rw [hsplit'] at heq hnodup
        obtain ⟨hfront, hb, -⟩ := split_unique hnodup heq
        rw [hfront, hb]
        exact hprefix
  exact hfront entries [] (List.append_nil _).symm rfl

end EntryStream
