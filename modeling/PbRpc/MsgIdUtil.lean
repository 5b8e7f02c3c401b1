import PbRpc.CxxString
import PbRpc.Transition

/-!
# Message ids

`GetMsgId` keeps the last id that it returned, a numeral of fixed length, and
returns the one after it. It adds one on the digits: it looks from the end for
a digit that is not a nine, raises that digit, and writes zeros behind it. The
index is a `size_t`, so the test `i >= 0` of the loop always holds, and a
numeral of nines only would be left through its front. The test before the
loop keeps that from happening: the id of nines is thrown away and a new one is
drawn at random, as at the very first call.

`MsgIds` is the generator with the ids it has returned, each with the number of
draws before it. Ids with the same number go up by one (`properIds`).
-/

namespace PbRpc

open Transition

def zero : UInt8 := 48
def nine : UInt8 := 57

/-- **The generator of message ids.** -/
structure MsgIdUtil where
  g_msg_id_length : ℕ
  t_msg_id_no : Bytes := []
  t_max_msg_id_no : Bytes := []
deriving DecidableEq, Repr

namespace MsgIdUtil

/-- The loop that looks for a digit that is not a nine, from an index down. At
index 0 the index wraps around, and the next read is out of range. -/
def lastNotNine (id : Bytes) : ℕ → Except Fault ℕ
  | 0 =>
    match id[0]? with
    | none => .error .outOfRange
    | some c => if c = nine then .error .outOfRange else .ok 0
  | i + 1 =>
    match id[i + 1]? with
    | none => .error .outOfRange
    | some c => if c = nine then lastNotNine id i else .ok (i + 1)

/-- The digit at the index goes up, and the digits behind it become zeros. -/
def increment (id : Bytes) (i : ℕ) : Bytes :=
  (id.modify i (· + 1)).take (i + 1) ++ List.replicate (id.length - (i + 1)) zero

/-- **`GetMsgId`**, with the digits that the random generator would give. -/
def GetMsgId (s : MsgIdUtil) (dis : ℕ → Fin 10) : Except Fault (Bytes × MsgIdUtil) :=
  if s.t_msg_id_no = [] ∨ s.t_msg_id_no = s.t_max_msg_id_no then
    let id := (List.range s.g_msg_id_length).map (fun k => digit (dis k))
    .ok (id, { s with
      t_max_msg_id_no := List.replicate s.g_msg_id_length nine
      t_msg_id_no := id })
  else do
    let i ← lastNotNine s.t_msg_id_no (s.t_msg_id_no.length - 1)
    let id := increment s.t_msg_id_no i
    return (id, { s with t_msg_id_no := id })

/-! ## Adding one -/

/-- A number with a digit that is not a nine ends with the last of these and
then nines. -/
theorem exists_lastNotNine {id : Bytes} (h : id ≠ List.replicate id.length nine) :
    ∃ s c k, id = s ++ c :: List.replicate k nine ∧ c ≠ nine := by
  induction id using List.reverseRecOn with
  | nil => exact absurd rfl h
  | append_singleton id c ih =>
    by_cases hc : c = nine
    · -- the digit is farther to the front
      have hid : id ≠ List.replicate id.length nine := by
        intro hid
        rw [List.length_append, List.length_singleton, List.replicate_succ', ← hid, hc] at h
        exact h rfl
      obtain ⟨s, d, k, hs, hd⟩ := ih hid
      refine ⟨s, d, k + 1, ?_, hd⟩
      rw [List.replicate_succ', ← List.cons_append, ← List.append_assoc, ← hs, hc]
    · exact ⟨id, c, 0, rfl, hc⟩

/-- **The loop finds it.** -/
theorem lastNotNine_append (s : Bytes) {c : UInt8} (k : ℕ) (hc : c ≠ nine) {j : ℕ} (hj : j ≤ k) :
    lastNotNine (s ++ c :: List.replicate k nine) (s.length + j) = .ok s.length := by
  induction j with
  | zero =>
    have hget : (s ++ c :: List.replicate k nine)[s.length]? = some c := by simp
    rw [Nat.add_zero]
    cases hlen : s.length with
    | zero =>
      rw [hlen] at hget
      rw [lastNotNine, hget]
      exact if_neg hc
    | succ n =>
      rw [hlen] at hget
      rw [lastNotNine, hget]
      exact if_neg hc
  | succ j ih =>
    have hget : (s ++ c :: List.replicate k nine)[s.length + j + 1]? = some nine := by
      rw [Nat.add_assoc, List.getElem?_append_right (Nat.le_add_right _ _), Nat.add_sub_cancel_left,
        List.getElem?_cons_succ, List.getElem?_replicate]
      exact if_pos hj
    show lastNotNine _ (s.length + j + 1) = _
    rw [lastNotNine, hget]
    dsimp only
    rw [if_pos rfl, ih (Nat.le_of_succ_le hj)]

/-- The digit is raised, and the nines become zeros. -/
theorem increment_append (s : Bytes) (c : UInt8) (k : ℕ) :
    increment (s ++ c :: List.replicate k nine) s.length
      = s ++ (c + 1) :: List.replicate k zero := by
  have hmodify : (s ++ c :: List.replicate k nine).modify s.length (· + 1)
      = (s ++ [c + 1]) ++ List.replicate k nine := by
    rw [List.modify_eq_take_drop, List.take_left, List.drop_left, List.append_assoc]
    rfl
  have hlen : (s ++ [c + 1]).length = s.length + 1 := by simp
  have hrest : (s ++ c :: List.replicate k nine).length - (s.length + 1) = k := by
    simp only [List.length_append, List.length_cons, List.length_replicate]
    omega
  rw [increment, hmodify, List.take_left' hlen, hrest, List.append_assoc]
  rfl

theorem digitsValue_nines (k : ℕ) : digitsValue (List.replicate k nine) + 1 = 10 ^ k := by
  induction k with
  | zero => rfl
  | succ k ih =>
    have hone : digitsValue [nine] = 9 := rfl
    rw [List.replicate_succ', digitsValue_append, hone, List.length_singleton, pow_succ 10 k, ← ih]
    ring

theorem digitsValue_zeros (k : ℕ) : digitsValue (List.replicate k zero) = 0 := by
  induction k with
  | zero => rfl
  | succ k ih =>
    have hone : digitsValue [zero] = 0 := rfl
    rw [List.replicate_succ', digitsValue_append, hone, ih, Nat.zero_mul]

/-- The value of a digit in front of others. -/
theorem digitsValue_cons (c : UInt8) (t : Bytes) :
    digitsValue (c :: t) = (c.toNat - 48) * 10 ^ t.length + digitsValue t := by
  rw [← List.singleton_append, digitsValue_append]
  exact congrArg (fun n => n * 10 ^ t.length + digitsValue t) (Nat.zero_add _)

/-- A digit that is not a nine can be raised. -/
theorem toNat_succ {c : UInt8} (hc : isDigit c = true) (hne : c ≠ nine) :
    (c + 1).toNat = c.toNat + 1 ∧ c.toNat < 57 := by
  obtain ⟨hlo, hhi⟩ := isDigit_iff.mp hc
  have hlt : c.toNat < 57 := by
    refine lt_of_le_of_ne hhi fun h => hne ?_
    exact UInt8.toNat_inj.mp h
  refine ⟨?_, hlt⟩
  rw [UInt8.toNat_add]
  show (c.toNat + 1) % 256 = c.toNat + 1
  omega

/-- **The numeral behind nines goes up by one.** -/
theorem digitsValue_succ (s : Bytes) {c : UInt8} (k : ℕ) (hc : isDigit c = true) (hne : c ≠ nine) :
    digitsValue (s ++ (c + 1) :: List.replicate k zero)
      = digitsValue (s ++ c :: List.replicate k nine) + 1 := by
  obtain ⟨hsucc, -⟩ := toNat_succ hc hne
  have hlo := (isDigit_iff.mp hc).1
  have hdigit : c.toNat + 1 - 48 = c.toNat - 48 + 1 := by omega
  simp only [digitsValue_append, digitsValue_cons, List.length_cons, List.length_replicate,
    digitsValue_zeros, hsucc, hdigit]
  rw [Nat.add_assoc, Nat.add_assoc (_ * _) _ 1, digitsValue_nines]
  ring

theorem isDigit_succ {c : UInt8} (hc : isDigit c = true) (hne : c ≠ nine) :
    isDigit (c + 1) = true := by
  obtain ⟨hsucc, hlt⟩ := toNat_succ hc hne
  have hlo := (isDigit_iff.mp hc).1
  rw [isDigit_iff, hsucc]
  omega

/-- **A call that does not draw** adds one, and keeps the length. -/
theorem getMsgId_succ {s : MsgIdUtil} (dis : ℕ → Fin 10) (hne : s.t_msg_id_no ≠ [])
    (hmax : s.t_max_msg_id_no = List.replicate s.t_msg_id_no.length nine)
    (hnines : s.t_msg_id_no ≠ s.t_max_msg_id_no)
    (hdigits : ∀ c ∈ s.t_msg_id_no, isDigit c = true) :
    ∃ id, s.GetMsgId dis = .ok (id, { s with t_msg_id_no := id }) ∧
      id.length = s.t_msg_id_no.length ∧ (∀ c ∈ id, isDigit c = true) ∧
      digitsValue id = digitsValue s.t_msg_id_no + 1 := by
  obtain ⟨t, c, k, ht, hc⟩ := exists_lastNotNine (hmax ▸ hnines)
  have hdigit : isDigit c = true := hdigits c (by rw [ht]; simp)
  have hlast : s.t_msg_id_no.length - 1 = t.length + k := by
    rw [ht, List.length_append, List.length_cons, List.length_replicate]
    rfl
  refine ⟨t ++ (c + 1) :: List.replicate k zero, ?_, ?_, ?_, ?_⟩
  · have hnot : ¬ (s.t_msg_id_no = [] ∨ s.t_msg_id_no = s.t_max_msg_id_no) :=
      fun h => h.elim hne hnines
    rw [GetMsgId, if_neg hnot, hlast, ht, lastNotNine_append t k hc le_rfl]
    show Except.ok _ = _
    rw [increment_append]
  · rw [ht]
    simp only [List.length_append, List.length_cons, List.length_replicate]
  · intro d hd
    rcases List.mem_append.mp hd with hd | hd
    · exact hdigits d (by rw [ht]; exact List.mem_append_left _ hd)
    · rcases List.mem_cons.mp hd with rfl | hd
      · exact isDigit_succ hdigit hc
      · rw [List.eq_of_mem_replicate hd]
        decide
  · rw [ht, digitsValue_succ t k hdigit hc]

/-- The next call draws. -/
def draws (s : MsgIdUtil) : Bool :=
  s.t_msg_id_no = [] ∨ s.t_msg_id_no = s.t_max_msg_id_no

/-- **A call that draws** returns digits, whatever they are. -/
theorem getMsgId_draw {s : MsgIdUtil} (dis : ℕ → Fin 10) (h : s.draws = true) :
    s.GetMsgId dis = .ok ((List.range s.g_msg_id_length).map (fun k => digit (dis k)),
      { s with
        t_max_msg_id_no := List.replicate s.g_msg_id_length nine
        t_msg_id_no := (List.range s.g_msg_id_length).map (fun k => digit (dis k)) }) :=
  if_pos (of_decide_eq_true h)

end MsgIdUtil

/-! ## Runs -/

/-- **The generator and the ids it has returned**, the first one first, each
with the number of draws until then. -/
structure MsgIds where
  generator : MsgIdUtil
  draws : ℕ := 0
  returned : List (ℕ × Bytes) := []
deriving DecidableEq, Repr

namespace MsgIds

/-- The generator as it is constructed, for ids of some length. -/
def init (g_msg_id_length : ℕ) : MsgIds := { generator := { g_msg_id_length } }

/-- **A call of `GetMsgId`.** -/
def step (s : MsgIds) (dis : ℕ → Fin 10) : Option MsgIds :=
  match s.generator.GetMsgId dis with
  | .error _ => none
  | .ok (id, generator) =>
    let draws := if s.generator.draws then s.draws + 1 else s.draws
    some { generator, draws, returned := s.returned ++ [(draws, id)] }

/-- An id as it should be. -/
structure IsId (g_msg_id_length : ℕ) (id : Bytes) : Prop where
  length : id.length = g_msg_id_length
  digits : ∀ c ∈ id, isDigit c = true

/-- **The ids that were returned**: they have the length and are digits, and
those between two draws go up and are different. -/
structure ProperIds (g_msg_id_length : ℕ) (s : MsgIds) : Prop where
  isId : ∀ r ∈ s.returned, IsId g_msg_id_length r.2
  increasing : s.returned.Pairwise fun r r' =>
    r.1 = r'.1 → r.2 ≠ r'.2 ∧ digitsValue r.2 < digitsValue r'.2

/-- **The next call**: it returns an id, and if the stored one is there and is
not all nines, the one after it. -/
structure NextId (g_msg_id_length : ℕ) (s : MsgIds) (dis : ℕ → Fin 10) : Prop where
  returns : ∃ id generator, s.generator.GetMsgId dis = .ok (id, generator) ∧
    IsId g_msg_id_length id ∧
    (s.generator.t_msg_id_no ≠ [] →
      s.generator.t_msg_id_no ≠ List.replicate g_msg_id_length nine →
      digitsValue id = digitsValue s.generator.t_msg_id_no + 1)

/-- **What every call keeps.** The stored id is the last one, and no id since
the last draw is above it. -/
structure Inv (g_msg_id_length : ℕ) (s : MsgIds) : Prop where
  length : s.generator.g_msg_id_length = g_msg_id_length
  stored : s.generator.t_msg_id_no = [] ∨
    IsId g_msg_id_length s.generator.t_msg_id_no ∧
      s.generator.t_max_msg_id_no = List.replicate g_msg_id_length nine
  proper : ProperIds g_msg_id_length s
  draws_le : ∀ r ∈ s.returned, r.1 ≤ s.draws
  last : ∀ r ∈ s.returned, r.1 = s.draws →
    digitsValue r.2 ≤ digitsValue s.generator.t_msg_id_no

variable {g_msg_id_length : ℕ} {s s' : MsgIds}

theorem Inv.init (g_msg_id_length : ℕ) : Inv g_msg_id_length (init g_msg_id_length) where
  length := rfl
  stored := .inl rfl
  proper := ⟨fun _ hr => (List.not_mem_nil hr).elim, List.Pairwise.nil⟩
  draws_le _ hr := (List.not_mem_nil hr).elim
  last _ hr := (List.not_mem_nil hr).elim

/-- One more id. -/
theorem ProperIds.concat (h : ProperIds g_msg_id_length s) {generator : MsgIdUtil} {draws : ℕ}
    {id : Bytes} (hid : IsId g_msg_id_length id)
    (hlast : ∀ r ∈ s.returned, r.1 = draws → digitsValue r.2 < digitsValue id) :
    ProperIds g_msg_id_length ⟨generator, draws, s.returned ++ [(draws, id)]⟩ where
  isId r hr := by
    rcases List.mem_append.mp hr with hr | hr
    · exact h.isId r hr
    · rw [List.mem_singleton.mp hr]
      exact hid
  increasing := by
    refine List.pairwise_append.mpr ⟨h.increasing, List.pairwise_singleton _ _, ?_⟩
    intro r hr r' hr' hsame
    rw [List.mem_singleton.mp hr'] at hsame ⊢
    have hlt := hlast r hr hsame
    refine ⟨fun heq => ?_, hlt⟩
    rw [heq] at hlt
    exact lt_irrefl _ hlt

/-- The ids of the draw, as digits. -/
theorem isId_draw (n : ℕ) (dis : ℕ → Fin 10) :
    IsId n ((List.range n).map (fun k => digit (dis k))) where
  length := by rw [List.length_map, List.length_range]
  digits c hc := by
    obtain ⟨k, -, rfl⟩ := List.mem_map.mp hc
    exact isDigit_digit _

/-- **A call that does not draw**, of a generator that is reached. -/
theorem Inv.getMsgId_succ (h : Inv g_msg_id_length s) (dis : ℕ → Fin 10)
    (hdraws : s.generator.draws = false) :
    ∃ id, s.generator.GetMsgId dis = .ok (id, { s.generator with t_msg_id_no := id }) ∧
      IsId g_msg_id_length id ∧ s.generator.t_max_msg_id_no = List.replicate g_msg_id_length nine ∧
      digitsValue id = digitsValue s.generator.t_msg_id_no + 1 := by
  obtain ⟨hne, hnines⟩ := not_or.mp (of_decide_eq_false hdraws)
  obtain ⟨hid, hmax⟩ := h.stored.resolve_left hne
  obtain ⟨id, hcall, hlen, hdigits, hval⟩ :=
    MsgIdUtil.getMsgId_succ dis hne (hid.length ▸ hmax) hnines hid.digits
  exact ⟨id, hcall, ⟨hlen.trans hid.length, hdigits⟩, hmax, hval⟩

theorem Inv.step (h : Inv g_msg_id_length s) {dis : ℕ → Fin 10} (hs : s.step dis = some s') :
    Inv g_msg_id_length s' := by
  rw [MsgIds.step] at hs
  cases hdraws : s.generator.draws with
  | true =>
    -- the ids until now have a smaller number
    rw [MsgIdUtil.getMsgId_draw dis hdraws, h.length] at hs
    obtain rfl := Option.some.inj hs
    have hold : ∀ r ∈ s.returned, r.1 ≠ s.draws + 1 :=
      fun r hr => Nat.ne_of_lt (Nat.lt_succ_of_le (h.draws_le r hr))
    rw [hdraws, if_pos rfl]
    refine ⟨rfl, .inr ⟨isId_draw _ dis, rfl⟩,
      h.proper.concat (isId_draw _ dis) (fun r hr hsame => absurd hsame (hold r hr)), ?_, ?_⟩
    · intro r hr
      rcases List.mem_append.mp hr with hr | hr
      · exact Nat.le_succ_of_le (h.draws_le r hr)
      · rw [List.mem_singleton.mp hr]
    · intro r hr hsame
      rcases List.mem_append.mp hr with hr | hr
      · exact absurd hsame (hold r hr)
      · rw [List.mem_singleton.mp hr]
  | false =>
    obtain ⟨id, hcall, hid, hmax, hval⟩ := h.getMsgId_succ dis hdraws
    rw [hcall] at hs
    obtain rfl := Option.some.inj hs
    rw [hdraws, if_neg Bool.false_ne_true]
    have hlt : ∀ r ∈ s.returned, r.1 = s.draws → digitsValue r.2 < digitsValue id := by
      intro r hr hsame
      rw [hval]
      exact Nat.lt_succ_of_le (h.last r hr hsame)
    refine ⟨h.length, .inr ⟨hid, hmax⟩, h.proper.concat hid hlt, ?_, ?_⟩
    · intro r hr
      rcases List.mem_append.mp hr with hr | hr
      · exact h.draws_le r hr
      · rw [List.mem_singleton.mp hr]
    · intro r hr hsame
      rcases List.mem_append.mp hr with hr | hr
      · exact (hlt r hr hsame).le
      · rw [List.mem_singleton.mp hr]

/-- **The next call of a generator that is reached.** -/
theorem Inv.nextId (h : Inv g_msg_id_length s) (dis : ℕ → Fin 10) :
    NextId g_msg_id_length s dis := by
  constructor
  cases hdraws : s.generator.draws with
  | true =>
    rw [MsgIdUtil.getMsgId_draw dis hdraws, h.length]
    refine ⟨_, _, rfl, isId_draw _ dis, fun hne hnines => ?_⟩
    -- such a call does not draw
    obtain ⟨hid, hmax⟩ := h.stored.resolve_left hne
    rcases of_decide_eq_true hdraws with hnil | heq
    · exact absurd hnil hne
    · exact absurd (heq.trans hmax) hnines
  | false =>
    obtain ⟨id, hcall, hid, -, hval⟩ := h.getMsgId_succ dis hdraws
    exact ⟨id, _, hcall, hid, fun _ _ => hval⟩

/-- **Message ids**, after any number of calls: they have the length and are
digits, between two draws they go up by one, and the next call returns too. -/
theorem properIds (hruns : Runs step anyStep (init g_msg_id_length) s) :
    ProperIds g_msg_id_length s ∧ ∀ dis, NextId g_msg_id_length s dis :=
  have h : Inv g_msg_id_length s :=
    hruns.invariant (fun _ _ _ h _ hs => h.step hs) (Inv.init g_msg_id_length)
  ⟨h.proper, h.nextId⟩

/-- A draw and three calls, one of which carries. -/
theorem properIds_carry :
    ∃ s, s.returned = [(1, Bytes.ofString "08"), (1, Bytes.ofString "09"),
        (1, Bytes.ofString "10"), (1, Bytes.ofString "11")]
      ∧ ProperIds 2 s ∧ ∀ dis, NextId 2 s dis := by
  obtain ⟨s, hruns, h⟩ : ∃ s, Runs step anyStep (init 2) s ∧
      decide (s.returned = [(1, Bytes.ofString "08"), (1, Bytes.ofString "09"),
        (1, Bytes.ofString "10"), (1, Bytes.ofString "11")]) = true :=
    exists_of_execute
      [fun k => if k = 0 then 0 else 8, fun _ => 0, fun _ => 0, fun _ => 0] (by decide +kernel)
  exact ⟨s, of_decide_eq_true h, properIds hruns⟩

end MsgIds

end PbRpc
