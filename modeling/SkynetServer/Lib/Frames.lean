import Mathlib.Data.List.Basic

/-!
# Frames of a stream

A framing takes one frame off the front of a stream, if a whole one is there, and what comes after it does not matter.
`parse` takes off all of them and leaves the unfinished rest. A stream can be parsed in any number of pieces: it is enough
to keep the rest. What is written frame by frame is read back frame by frame.
-/

namespace Lib

structure Framing (α β : Type) where
  next : List β → Option (α × List β)
  shorter : ∀ {s a rest}, next s = some (a, rest) → rest.length < s.length
  append : ∀ {s a rest}, next s = some (a, rest) → ∀ t, next (s ++ t) = some (a, rest ++ t)

namespace Framing

variable {α β : Type} (F : Framing α β)

/-- The frames, and the rest. -/
def parse (s : List β) : List α × List β :=
  match h : F.next s with
  | some (a, rest) =>
    have : rest.length < s.length := F.shorter h
    (a :: (parse rest).1, (parse rest).2)
  | none => ([], s)
termination_by s.length

theorem parse_of_next {s : List β} {a : α} {rest : List β} (h : F.next s = some (a, rest)) :
    F.parse s = (a :: (F.parse rest).1, (F.parse rest).2) := by
  rw [parse]
  split
  · rename_i a' rest' h'
    obtain ⟨rfl, rfl⟩ := Prod.mk.inj (Option.some.inj (h'.symm.trans h))
    rfl
  · rename_i h'
    cases h'.symm.trans h

theorem parse_of_none {s : List β} (h : F.next s = none) : F.parse s = ([], s) := by
  rw [parse]
  split
  · rename_i a rest h'
    cases h'.symm.trans h
  · rfl

theorem parse_append (s t : List β) :
    F.parse (s ++ t) = ((F.parse s).1 ++ (F.parse ((F.parse s).2 ++ t)).1, (F.parse ((F.parse s).2 ++ t)).2) := by
  induction s using (measure List.length).wf.induction with
  | h s ih =>
    cases h : F.next s with
    | none => simp [F.parse_of_none h]
    | some found =>
      obtain ⟨a, rest⟩ := found
      rw [F.parse_of_next h, F.parse_of_next (F.append h t), ih rest (F.shorter h)]
      rfl

/-- What a writer of frames has written is read back. -/
theorem parse_flatMap {encode : α → List β} {frames : List α} (hnil : F.next [] = none)
    (h : ∀ a ∈ frames, ∀ t, F.next (encode a ++ t) = some (a, t)) : F.parse (frames.flatMap encode) = (frames, []) := by
  induction frames with
  | nil => exact F.parse_of_none hnil
  | cons a frames ih =>
    rw [List.flatMap_cons, F.parse_of_next (h a List.mem_cons_self _),
      ih fun b hb => h b (List.mem_cons_of_mem _ hb)]

end Framing

end Lib
