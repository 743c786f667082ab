import Mathlib.Data.List.GetD
import SkynetServer.Websocket.ReadSize

/-!
# Searching a buffer

The client and the server each have a copy of `websocket_strnpos`. Here both are written with the arithmetic of C: the bound
of the loop is a difference of unsigned numbers, is made an `int` and is compared with an unsigned index, and the index that
is returned becomes an `int`. A read outside of the haystack ends the search. Only the copy of the server looks at the
lengths first, so the two find the first occurrence exactly when the haystack is not two bytes or more shorter than the
needle, and the first occurrence, if there is one, is at an offset that an `int` holds.
-/

namespace SkynetServer.Websocket

/-! ### What is searched for -/

def OccursAt (haystack needle : List UInt8) (i : Nat) : Prop := needle <+: haystack.drop i

instance (haystack needle : List UInt8) (i : Nat) : Decidable (OccursAt haystack needle i) :=
  inferInstanceAs (Decidable (_ <+: _))

/-- The least offset of the needle, or `-1`. -/
def FindsFirst (haystack needle : List UInt8) (r : Int) : Prop :=
  (∃ i : Nat, r = i ∧ OccursAt haystack needle i ∧ ∀ j < i, ¬ OccursAt haystack needle j) ∨
    (r = -1 ∧ ∀ i, ¬ OccursAt haystack needle i)

theorem OccursAt.le_length {haystack needle : List UInt8} {i : Nat} (h : OccursAt haystack needle i)
    (hneedle : needle ≠ []) : i + needle.length ≤ haystack.length := by
  have hle := h.length_le
  have hpos := List.length_pos_iff.mpr hneedle
  rw [List.length_drop] at hle
  omega

theorem occursAt_iff (haystack : List UInt8) {needle : List UInt8} (hneedle : needle ≠ []) (i : Nat) :
    OccursAt haystack needle i ↔
      (haystack.drop i).getD 0 0 = needle.getD 0 0 ∧ (haystack.drop i).take needle.length = needle := by
  refine ⟨fun h => ⟨?_, (List.prefix_iff_eq_take.mp h).symm⟩, fun h => List.prefix_iff_eq_take.mpr h.2.symm⟩
  obtain ⟨b, rest, rfl⟩ := List.exists_cons_of_ne_nil hneedle
  obtain ⟨tail, htail⟩ := h
  rw [← htail]
  rfl

theorem FindsFirst.unique {haystack needle : List UInt8} {r r' : Int} (h : FindsFirst haystack needle r)
    (h' : FindsFirst haystack needle r') : r = r' := by
  rcases h with ⟨i, rfl, hoccurs, hleast⟩ | ⟨rfl, hnone⟩ <;> rcases h' with ⟨i', rfl, hoccurs', hleast'⟩ | ⟨rfl, hnone'⟩
  · rcases Nat.lt_trichotomy i i' with hlt | rfl | hlt
    · exact absurd hoccurs (hleast' i hlt)
    · rfl
    · exact absurd hoccurs' (hleast i' hlt)
  · exact absurd hoccurs (hnone' i)
  · exact absurd hoccurs' (hnone i')
  · rfl

theorem strnposFrom_cases (haystack : List UInt8) {needle : List UInt8} (hneedle : needle ≠ []) (n i : Nat) :
    (∃ k, i ≤ k ∧ k < i + n ∧ strnposFrom needle n i (haystack.drop i) = k ∧ OccursAt haystack needle k ∧
        ∀ j, i ≤ j → j < k → ¬ OccursAt haystack needle j) ∨
      (strnposFrom needle n i (haystack.drop i) = -1 ∧ ∀ j, i ≤ j → j < i + n → ¬ OccursAt haystack needle j) := by
  induction n generalizing i with
  | zero => exact .inr ⟨rfl, fun j hle hlt => absurd hlt (by omega)⟩
  | succ n ih =>
    have htest := occursAt_iff haystack hneedle i
    by_cases hoccurs : OccursAt haystack needle i
    · refine .inl ⟨i, le_rfl, by omega, ?_, hoccurs, fun j hle hlt => absurd hlt (by omega)⟩
      rw [strnposFrom, if_pos (htest.mp hoccurs)]
    · have hnext : strnposFrom needle (n + 1) i (haystack.drop i) =
          strnposFrom needle n (i + 1) (haystack.drop (i + 1)) := by
        rw [strnposFrom, if_neg (fun h => hoccurs (htest.mpr h)), List.drop_drop]
      rw [hnext]
      have hskip : ∀ j, i ≤ j → (i + 1 ≤ j → ¬ OccursAt haystack needle j) → ¬ OccursAt haystack needle j := by
        intro j hle hlater
        rcases Nat.eq_or_lt_of_le hle with rfl | hlt
        · exact hoccurs
        · exact hlater hlt
      rcases ih (i + 1) with ⟨k, hle, hlt, heq, hfound, hleast⟩ | ⟨heq, hnone⟩
      · exact .inl ⟨k, by omega, by omega, heq, hfound, fun j hj hjk => hskip j hj fun hj' => hleast j hj' hjk⟩
      · exact .inr ⟨heq, fun j hj hjn => hskip j hj fun hj' => hnone j hj' (by omega)⟩

theorem findsFirst_websocketStrnpos (haystack : List UInt8) {needle : List UInt8} (hneedle : needle ≠ []) :
    FindsFirst haystack needle (websocketStrnpos haystack needle) := by
  unfold websocketStrnpos
  split
  · refine .inr ⟨rfl, fun i h => ?_⟩
    have := h.le_length hneedle
    omega
  · rcases strnposFrom_cases haystack hneedle (haystack.length - needle.length + 1) 0 with
      ⟨k, -, -, heq, hoccurs, hleast⟩ | ⟨heq, hnone⟩
    · exact .inl ⟨k, heq, hoccurs, fun j hj => hleast j (Nat.zero_le j) hj⟩
    · refine .inr ⟨heq, fun i h => hnone i (Nat.zero_le i) ?_ h⟩
      have := h.le_length hneedle
      omega

/-! ### The two copies -/

inductive StrnposFault where
  | outside (index : Nat)
  | assertion
deriving DecidableEq

/-- `(uint32_t) n`. -/
def toUint32 (n : Int) : Nat := (n % 2 ^ 32).toNat

/-- `(int) (haystack_length - needle_length + 1)` as it is compared with the unsigned index. -/
def loopBound (haystackLength needleLength : Nat) : Nat :=
  toUint32 (toInt (((haystackLength + 2 ^ 32 - needleLength) % 2 ^ 32 + 1) % 2 ^ 32))

/-- The loop, with `n` rounds left at the index `i`. `memcmp` is given as many bytes as the needle has. -/
def searchFrom (haystack needle : List UInt8) : Nat → Nat → Except StrnposFault Int
  | 0, _ => .ok (-1)
  | n + 1, i =>
    if haystack.length ≤ i then .error (.outside i)
    else if haystack.getD i 0 = needle.getD 0 0 then
      if haystack.length < i + needle.length then .error (.outside haystack.length)
      else if (haystack.drop i).take needle.length = needle then .ok (toInt i)
      else searchFrom haystack needle n (i + 1)
    else searchFrom haystack needle n (i + 1)

namespace Client

/-- `websocket_strnpos` of `lua-clientwebsocket.c`. -/
def websocketStrnpos (haystack needle : List UInt8) : Except StrnposFault Int :=
  if needle.length ≤ 0 then .ok (-1)
  else searchFrom haystack needle (loopBound haystack.length needle.length) 0

def getHttpHeader (buffer : List UInt8) : Except StrnposFault Int := do
  let n ← websocketStrnpos buffer [13, 10, 13, 10]
  if n < 0 then return n else return n + 4

end Client

namespace Server

/-- `websocket_strnpos` of `lua-websocketnetpack.c`. -/
def websocketStrnpos (haystack needle : List UInt8) : Except StrnposFault Int :=
  if needle.length ≤ 0 then .error .assertion
  else if haystack.length < needle.length then .ok (-1)
  else searchFrom haystack needle (loopBound haystack.length needle.length) 0

def getHttpHeader (buffer : List UInt8) : Except StrnposFault Int := do
  let n ← websocketStrnpos buffer [13, 10, 13, 10]
  if n < 0 then return n else return n + 4

end Server

/-! ### The arithmetic of the loop -/

theorem toUint32_toInt {n : Nat} (hn : n < 2 ^ 32) : toUint32 (toInt n) = n := by
  unfold toUint32 toInt
  rw [Int.bmod_def]
  omega

theorem loopBound_of_le {haystackLength needleLength : Nat} (hpos : 0 < needleLength)
    (hle : needleLength ≤ haystackLength + 1) (hlt : haystackLength < 2 ^ 32) :
    loopBound haystackLength needleLength = haystackLength + 1 - needleLength := by
  unfold loopBound
  rw [toUint32_toInt (by omega)]
  omega

/-- The difference wraps, and the loop goes on behind the haystack. -/
theorem lt_loopBound {haystackLength needleLength : Nat} (hlt : haystackLength + 1 < needleLength)
    (hneedle : needleLength < 2 ^ 32) : haystackLength < loopBound haystackLength needleLength := by
  unfold loopBound
  rw [toUint32_toInt (by omega)]
  omega

/-- While the needle fits behind the index, the loop reads inside of the haystack only. -/
theorem searchFrom_eq {haystack needle : List UInt8} (hneedle : needle ≠ []) (n i : Nat)
    (hroom : i + n + needle.length ≤ haystack.length + 1) :
    searchFrom haystack needle n i = .ok (Int.bmod (strnposFrom needle n i (haystack.drop i)) (2 ^ 32)) := by
  have hpos := List.length_pos_iff.mpr hneedle
  induction n generalizing i with
  | zero => rfl
  | succ n ih =>
    have hget : haystack.getD i 0 = (haystack.drop i).getD 0 0 := by
      rw [List.getD_eq_getElem?_getD, List.getD_eq_getElem?_getD, List.getElem?_drop, Nat.add_zero]
    have hnext := ih (i + 1) (by omega)
    rw [searchFrom, if_neg (by omega), strnposFrom, hget]
    by_cases hfirst : (haystack.drop i).getD 0 0 = needle.getD 0 0
    · rw [if_pos hfirst, if_neg (by omega)]
      by_cases hrest : (haystack.drop i).take needle.length = needle
      · rw [if_pos hrest, if_pos ⟨hfirst, hrest⟩]
        rfl
      · rw [if_neg hrest, if_neg (fun h => hrest h.2), hnext, List.drop_drop]
    · rw [if_neg hfirst, if_neg (fun h => hfirst h.1), hnext, List.drop_drop]

theorem searchFrom_outside {haystack needle : List UInt8} (hshort : haystack.length < needle.length) (n i : Nat)
    (hle : i ≤ haystack.length) (hlt : haystack.length < i + n) :
    ∃ fault, searchFrom haystack needle n i = .error fault := by
  induction n generalizing i with
  | zero => omega
  | succ n ih =>
    rw [searchFrom]
    by_cases hend : haystack.length ≤ i
    · exact ⟨_, if_pos hend⟩
    · rw [if_neg hend]
      by_cases hfirst : haystack.getD i 0 = needle.getD 0 0
      · rw [if_pos hfirst, if_pos (by omega)]
        exact ⟨_, rfl⟩
      · rw [if_neg hfirst]
        exact ih (i + 1) (by omega) (by omega)

variable {haystack needle : List UInt8}

theorem server_eq (hneedle : needle ≠ []) (hlt : haystack.length < 2 ^ 32) :
    Server.websocketStrnpos haystack needle = .ok (Int.bmod (websocketStrnpos haystack needle) (2 ^ 32)) := by
  have hpos := List.length_pos_iff.mpr hneedle
  rw [Server.websocketStrnpos, if_neg (by omega), websocketStrnpos]
  by_cases hshort : haystack.length < needle.length
  · rw [if_pos hshort, if_pos hshort]
    rfl
  · rw [if_neg hshort, if_neg hshort, loopBound_of_le hpos (by omega) hlt, searchFrom_eq hneedle _ _ (by omega),
      List.drop_zero, Nat.sub_add_comm (by omega)]

/-- The copy of the client, where the length it computes does not wrap. -/
theorem client_eq (hneedle : needle ≠ []) (hlt : haystack.length < 2 ^ 32)
    (hle : needle.length ≤ haystack.length + 1) :
    Client.websocketStrnpos haystack needle = .ok (Int.bmod (websocketStrnpos haystack needle) (2 ^ 32)) := by
  have hpos := List.length_pos_iff.mpr hneedle
  rw [Client.websocketStrnpos, if_neg (by omega), loopBound_of_le hpos hle hlt, searchFrom_eq hneedle _ _ (by omega),
    websocketStrnpos, List.drop_zero]
  by_cases hshort : haystack.length < needle.length
  · rw [if_pos hshort, show haystack.length + 1 - needle.length = 0 by omega]
    rfl
  · rw [if_neg hshort, Nat.sub_add_comm (by omega)]

theorem client_outside (hlt : needle.length < 2 ^ 32) (hshort : haystack.length + 1 < needle.length) :
    ∃ fault, Client.websocketStrnpos haystack needle = .error fault := by
  rw [Client.websocketStrnpos, if_neg (by omega)]
  exact searchFrom_outside (by omega) _ 0 (Nat.zero_le _) (by simpa using lt_loopBound hshort hlt)

/-! ### Where they find the first occurrence -/

/-- The search reads inside of the haystack only, and finds the first occurrence. -/
def Correct (search : List UInt8 → List UInt8 → Except StrnposFault Int) (haystack needle : List UInt8) : Prop :=
  ∃ r, search haystack needle = .ok r ∧ FindsFirst haystack needle r

/-- An occurrence at all means one that an `int` can name. -/
def Nameable (haystack needle : List UInt8) : Prop :=
  (∃ i, OccursAt haystack needle i) → ∃ i < 2 ^ 31, OccursAt haystack needle i

theorem findsFirst_bmod_iff (hneedle : needle ≠ []) (hlt : haystack.length < 2 ^ 32) :
    FindsFirst haystack needle (Int.bmod (websocketStrnpos haystack needle) (2 ^ 32)) ↔ Nameable haystack needle := by
  have hfirst := findsFirst_websocketStrnpos haystack hneedle
  rcases hfirst with ⟨i, heq, hoccurs, hleast⟩ | ⟨heq, hnone⟩
  · have hi : i < 2 ^ 32 := by
      have hroom := hoccurs.le_length hneedle
      omega
    have hname : Nameable haystack needle ↔ i < 2 ^ 31 := by
      refine ⟨fun h => ?_, fun h _ => ⟨i, h, hoccurs⟩⟩
      obtain ⟨k, hk, hkoccurs⟩ := h ⟨i, hoccurs⟩
      by_contra hnot
      exact hleast k (by omega) hkoccurs
    have hwrap : Int.bmod i (2 ^ 32) = i ↔ i < 2 ^ 31 := by
      rw [Int.bmod_def]
      omega
    rw [heq, hname, ← hwrap]
    refine ⟨fun h => h.unique (.inl ⟨i, rfl, hoccurs, hleast⟩), fun h => ?_⟩
    rw [h]
    exact .inl ⟨i, rfl, hoccurs, hleast⟩
  · rw [heq]
    refine iff_of_true (.inr ⟨rfl, hnone⟩) fun h => ?_
    obtain ⟨i, hoccurs⟩ := h
    exact absurd hoccurs (hnone i)

theorem server_correct_iff (hneedle : needle ≠ []) (hlt : haystack.length < 2 ^ 32) :
    Correct Server.websocketStrnpos haystack needle ↔ Nameable haystack needle := by
  simp only [Correct, server_eq hneedle hlt, Except.ok.injEq, exists_eq_left']
  exact findsFirst_bmod_iff hneedle hlt

theorem client_correct_iff (hneedle : needle ≠ []) (hlt : haystack.length < 2 ^ 32) (hneedleLt : needle.length < 2 ^ 32) :
    Correct Client.websocketStrnpos haystack needle ↔
      needle.length ≤ haystack.length + 1 ∧ Nameable haystack needle := by
  by_cases hle : needle.length ≤ haystack.length + 1
  · simp only [Correct, client_eq hneedle hlt hle, Except.ok.injEq, exists_eq_left', hle, true_and]
    exact findsFirst_bmod_iff hneedle hlt
  · obtain ⟨fault, heq⟩ : ∃ fault, Client.websocketStrnpos haystack needle = .error fault :=
      client_outside hneedleLt (by omega)
    refine iff_of_false ?_ fun h => hle h.1
    rintro ⟨r, hr, -⟩
    rw [heq] at hr
    cases hr

theorem header_eq_iff {buffer : List UInt8} (hlt : buffer.length < 2 ^ 31) :
    Client.getHttpHeader buffer = Server.getHttpHeader buffer ↔ 3 ≤ buffer.length := by
  have hserver : Server.websocketStrnpos buffer [13, 10, 13, 10] = _ := server_eq (by simp) (by omega)
  by_cases hthree : 3 ≤ buffer.length
  · have hclient : Client.websocketStrnpos buffer [13, 10, 13, 10] = _ :=
      client_eq (by simp) (by omega) (by simpa using hthree)
    simp only [Client.getHttpHeader, Server.getHttpHeader, hclient, hserver, hthree]
  · obtain ⟨fault, hclient⟩ : ∃ fault, Client.websocketStrnpos buffer [13, 10, 13, 10] = .error fault :=
      client_outside (by simp) (by simp only [List.length_cons, List.length_nil]; omega)
    refine iff_of_false ?_ hthree
    rw [Client.getHttpHeader, Server.getHttpHeader, hclient, hserver]
    change Except.error fault ≠ if _ then _ else _
    split <;> exact fun h => nomatch h

/-- **Searching a buffer.** For every haystack and every non-empty needle whose lengths are 32-bit numbers, both copies read
inside of the haystack and find the first occurrence exactly when the haystack is at most one byte shorter than the needle
and any occurrence means one below `2 ^ 31`; and for every buffer whose size is an `int`, the two `get_http_header` agree
exactly when it has three bytes. -/
theorem strnpos_correct_iff (haystack needle : List UInt8) (hneedle : needle ≠ []) (hlt : haystack.length < 2 ^ 32)
    (hneedleLt : needle.length < 2 ^ 32) (buffer : List UInt8) (hbuffer : buffer.length < 2 ^ 31) :
    (Correct Client.websocketStrnpos haystack needle ∧ Correct Server.websocketStrnpos haystack needle ↔
      needle.length ≤ haystack.length + 1 ∧ Nameable haystack needle) ∧
    (Client.getHttpHeader buffer = Server.getHttpHeader buffer ↔ 3 ≤ buffer.length) := by
  refine ⟨?_, header_eq_iff hbuffer⟩
  rw [client_correct_iff hneedle hlt hneedleLt, server_correct_iff hneedle hlt]
  exact and_iff_left_of_imp fun h => h.2

/-- A needle of four bytes in a haystack of three. -/
theorem strnpos_correct_iff_three_bytes :
    (Correct Client.websocketStrnpos [71, 69, 84] [13, 10, 13, 10] ∧
      Correct Server.websocketStrnpos [71, 69, 84] [13, 10, 13, 10] ↔
        4 ≤ 3 + 1 ∧ Nameable [71, 69, 84] [13, 10, 13, 10]) ∧
      (Client.getHttpHeader [71, 69, 84] = Server.getHttpHeader [71, 69, 84] ↔ 3 ≤ 3) :=
  strnpos_correct_iff [71, 69, 84] [13, 10, 13, 10] (by simp) (by decide) (by decide) [71, 69, 84] (by decide)

/-- In a haystack of two bytes the client goes on behind it. -/
theorem not_strnpos_correct_two_bytes :
    ¬ ∀ haystack needle : List UInt8, needle ≠ [] → haystack.length < 2 ^ 32 → needle.length < 2 ^ 32 →
      Correct Client.websocketStrnpos haystack needle ∧ Correct Server.websocketStrnpos haystack needle := by
  intro hall
  obtain ⟨⟨r, hr, -⟩, -⟩ := hall [71, 69] [13, 10, 13, 10] (by simp) (by decide) (by decide)
  obtain ⟨fault, heq⟩ : ∃ fault, Client.websocketStrnpos [71, 69] [13, 10, 13, 10] = .error fault :=
    client_outside (by decide) (by decide)
  rw [heq] at hr
  cases hr

end SkynetServer.Websocket
