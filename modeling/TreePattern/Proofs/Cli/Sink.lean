import Mathlib.Data.Nat.Notation
import TreePattern.Cli.Sink

namespace TreePattern.Cli.Sink

variable (sink : Sink) (room : ℕ) (written : Array UInt8) (refusal s t : String)
  (texts : List String)

theorem bytesOf_empty : bytesOf "" = [] := rfl

theorem bytesOf_append : bytesOf (s ++ t) = bytesOf s ++ bytesOf t := by
  simp [bytesOf]

theorem bytesOf_join : bytesOf (String.join texts) = texts.flatMap bytesOf := by
  induction texts with
  | nil => rfl
  | cons text rest ih => rw [String.join_cons, bytesOf_append, ih, List.flatMap_cons]

theorem append_append (a b : List UInt8) : written ++ a ++ b = written ++ (a ++ b) := by
  apply Array.ext'
  simp

theorem write_endless (h : sink.room = none) :
    sink.write s = ({ sink with written := sink.written ++ bytesOf s }, true) := by
  rw [write, h]

theorem write_room : write ⟨some room, written, refusal⟩ s =
    (⟨some (room - (bytesOf s).length), written ++ (bytesOf s).take room, refusal⟩,
      decide ((bytesOf s).length ≤ room)) := rfl

theorem write_empty : sink.write "" = (sink, true) := by
  obtain ⟨_ | room, written, refusal⟩ := sink
  · simp [write_endless, bytesOf_empty]
  · simp [write_room, bytesOf_empty]

theorem write_complete (h : (sink.write s).2 = true) :
    (sink.write s).1.written = sink.written ++ bytesOf s := by
  obtain ⟨_ | room, written, refusal⟩ := sink
  · rfl
  · rw [write_room] at h ⊢
    dsimp only
    rw [List.take_of_length_le (of_decide_eq_true h)]

/-- A text that continues another one is written only if that one was taken in full. -/
theorem write_append :
    sink.write (s ++ t) = if (sink.write s).2 then (sink.write s).1.write t else sink.write s := by
  obtain ⟨_ | room, written, refusal⟩ := sink
  · simp only [write_endless, bytesOf_append, append_append, if_true]
  · rw [write_room, write_room, bytesOf_append, List.length_append, List.take_append]
    by_cases h : (bytesOf s).length ≤ room
    · have hfits : (bytesOf s).length + (bytesOf t).length ≤ room ↔
          (bytesOf t).length ≤ room - (bytesOf s).length := by omega
      rw [if_pos (decide_eq_true h), write_room, List.take_of_length_le h, append_append,
        Nat.sub_sub, decide_eq_decide.mpr hfits]
    · -- The first text fills the sink, so nothing of the second is taken.
      have hfull : room - (bytesOf s).length = 0 := by omega
      have hless : ¬ (bytesOf s).length + (bytesOf t).length ≤ room := by omega
      rw [if_neg (by simpa using h), ← Nat.sub_sub, hfull, List.take_zero, List.append_nil,
        Nat.zero_sub, decide_eq_false h, decide_eq_false hless]

theorem writeAll_eq_write : sink.writeAll texts = sink.write (String.join texts) := by
  induction texts generalizing sink with
  | nil => exact (write_empty sink).symm
  | cons text rest ih =>
    rw [String.join_cons, write_append, writeAll]
    rcases hw : sink.write text with ⟨sink', _ | _⟩
    · rfl
    · exact ih sink'

end TreePattern.Cli.Sink
